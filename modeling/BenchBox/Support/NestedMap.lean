import Mathlib.Data.List.Basic
import Std.Data.TreeMap.Lemmas

/-!
# Three-level ordered maps with auto-inserted entries

Ordered maps nested three deep, updated in place at a triple of keys where a
missing entry starts from a default, and finally flattened to lists.  The
nested map is understood through its lookup function: updates change it at one
triple, a fold of updates splits into one fold for each triple, and flattening
depends on nothing else, provided no inner map is empty.
-/

open Std

/-- An ordered map of ordered maps of ordered maps. -/
abbrev NestedMap (κ : Type u) [Ord κ] (β : Type v) : Type (max u v) :=
  TreeMap κ (TreeMap κ (TreeMap κ β))

namespace NestedMap

variable {κ : Type u} {β : Type v} {ι : Type w} [Ord κ]

/-- Change the entry at `k` in place, inserting `default` first if there is
none. -/
def modifyAt (m : TreeMap κ β) (k : κ) (default : β) (f : β → β) :
    TreeMap κ β :=
  m.insert k (f (m.getD k default))

/-- `modifyAt` through the three levels. -/
def update (m : NestedMap κ β) (k : κ × κ × κ) (default : β) (f : β → β) :
    NestedMap κ β :=
  modifyAt m k.1 ∅ fun m₂ =>
    modifyAt m₂ k.2.1 ∅ fun m₃ =>
      modifyAt m₃ k.2.2 default f

/-- The entry at a triple of keys. -/
def lookup (m : NestedMap κ β) (k : κ × κ × κ) : Option β :=
  (m[k.1]?.bind (·[k.2.1]?)).bind (·[k.2.2]?)

/-- Every inner map has an entry. -/
def NoEmpty (m : NestedMap κ β) : Prop :=
  ∀ (k₁ : κ) (m₂ : TreeMap κ (TreeMap κ β)), m[k₁]? = some m₂ →
    m₂.isEmpty = false ∧
      ∀ (k₂ : κ) (m₃ : TreeMap κ β), m₂[k₂]? = some m₃ → m₃.isEmpty = false

/-- The map built from the empty one by updating at `key x` for each `x`. -/
def collect (key : ι → κ × κ × κ) (default : β) (f : ι → β → β)
    (xs : List ι) : NestedMap κ β :=
  xs.foldl (fun m x => update m (key x) default (f x)) ∅

/-- Change every entry in place. -/
def mapValues {γ : Type w} (f : β → γ) (m : NestedMap κ β) : NestedMap κ γ :=
  m.map fun _ m₂ => m₂.map fun _ m₃ => m₃.map fun _ b => f b

/-- List the images of the entries by increasing keys. -/
def mapEntries {δ : Type w} (g : κ → β → δ) (m : TreeMap κ β) : List δ :=
  m.toList.map fun p => g p.1 p.2

/-- `mapEntries` through the three levels. -/
def flatten {δ₁ δ₂ δ₃ : Type w} (g₁ : κ → List δ₂ → δ₁)
    (g₂ : κ → List δ₃ → δ₂) (g₃ : κ → β → δ₃) (m : NestedMap κ β) : List δ₁ :=
  mapEntries (fun k₁ m₂ => g₁ k₁ <|
    mapEntries (fun k₂ m₃ => g₂ k₂ <| mapEntries g₃ m₃) m₂) m

theorem toList_ne_nil {m : TreeMap κ β} (h : m.isEmpty = false) :
    m.toList ≠ [] := by
  intro hnil
  rw [← TreeMap.isEmpty_toList, hnil] at h
  exact Bool.noConfusion h

theorem lookup_eq_some_iff {m : NestedMap κ β} {k : κ × κ × κ} {b : β} :
    lookup m k = some b ↔
      ∃ m₂, m[k.1]? = some m₂ ∧
        ∃ m₃, m₂[k.2.1]? = some m₃ ∧ m₃[k.2.2]? = some b := by
  simp only [lookup, Option.bind_eq_some_iff]
  constructor
  · intro h
    rcases h with ⟨m₃, ⟨m₂, hm₂, hm₃⟩, hb⟩
    exact ⟨m₂, hm₂, m₃, hm₃, hb⟩
  · intro h
    rcases h with ⟨m₂, hm₂, m₃, hm₃, hb⟩
    exact ⟨m₃, ⟨m₂, hm₂, hm₃⟩, hb⟩

variable [TransOrd κ]

theorem isEmpty_modifyAt (m : TreeMap κ β) (k : κ) (default : β) (f : β → β) :
    (modifyAt m k default f).isEmpty = false :=
  TreeMap.isEmpty_insert

/-- A missing inner map reads like the empty one. -/
theorem getElem?_getD_empty (o : Option (TreeMap κ β)) (k : κ) :
    (o.getD ∅)[k]? = o.bind (·[k]?) := by
  cases o <;> simp

@[simp] theorem lookup_empty (k : κ × κ × κ) :
    lookup (∅ : NestedMap κ β) k = none := by
  simp [lookup]

theorem noEmpty_empty : NoEmpty (∅ : NestedMap κ β) := by
  intro k₁ m₂ h
  simp at h

variable [LawfulEqOrd κ]

/-! ## Lookups after updates -/

theorem getElem?_modifyAt [DecidableEq κ] (m : TreeMap κ β) (k k' : κ)
    (default : β) (f : β → β) :
    (modifyAt m k default f)[k']? =
      if k' = k then some (f (m[k]?.getD default)) else m[k']? := by
  rw [modifyAt, TreeMap.getElem?_insert, TreeMap.getD_eq_getD_getElem?]
  simp only [LawfulEqCmp.compare_eq_iff_eq, eq_comm (a := k)]

/-- An update changes the lookup at its own triple only. -/
theorem lookup_update [DecidableEq κ] (m : NestedMap κ β)
    (k k' : κ × κ × κ) (default : β) (f : β → β) :
    lookup (update m k default f) k' =
      if k' = k then some (f ((lookup m k).getD default))
      else lookup m k' := by
  obtain ⟨a, b, c⟩ := k
  obtain ⟨a', b', c'⟩ := k'
  simp only [lookup, update, getElem?_modifyAt, Prod.mk.injEq]
  by_cases ha : a' = a
  · subst ha
    by_cases hb : b' = b
    · subst hb
      by_cases hc : c' = c
      · simp [getElem?_modifyAt, getElem?_getD_empty, hc]
      · simp [getElem?_modifyAt, getElem?_getD_empty, hc]
    · simp [getElem?_modifyAt, getElem?_getD_empty, hb]
  · simp [ha]

/-- A fold of updates, seen from one triple. -/
theorem lookup_foldl_update [DecidableEq κ] (key : ι → κ × κ × κ)
    (default : β) (f : ι → β → β) (xs : List ι) (m : NestedMap κ β)
    (k : κ × κ × κ) :
    lookup (xs.foldl (fun m x => update m (key x) default (f x)) m) k =
      (xs.filter (key · = k)).foldl
        (fun o x => some (f x (o.getD default))) (lookup m k) := by
  induction xs generalizing m with
  | nil => rfl
  | cons x xs ih =>
      rw [List.foldl_cons, ih, lookup_update, List.filter_cons]
      by_cases hx : key x = k
      · simp [hx]
      · simp [hx, Ne.symm hx]

/-- A triple of `collect` holds its own elements, folded from the default. -/
theorem lookup_collect [DecidableEq κ] (key : ι → κ × κ × κ)
    (default : β) (f : ι → β → β) (xs : List ι) (k : κ × κ × κ) :
    lookup (collect key default f xs) k =
      if xs.filter (key · = k) = [] then none
      else some ((xs.filter (key · = k)).foldl (fun b x => f x b) default) := by
  have hsome (ys : List ι) (b : β) :
      ys.foldl (fun o x => some (f x (o.getD default))) (some b) =
        some (ys.foldl (fun b x => f x b) b) := by
    induction ys generalizing b with
    | nil => rfl
    | cons y ys ih => simpa using ih (f y b)
  rw [collect, lookup_foldl_update, lookup_empty]
  cases xs.filter (key · = k) with
  | nil => rfl
  | cons y ys => simpa using hsome ys (f y default)

/-! ## Inner maps are never empty -/

theorem noEmpty_update [DecidableEq κ] {m : NestedMap κ β} (hm : NoEmpty m)
    (k : κ × κ × κ) (default : β) (f : β → β) :
    NoEmpty (update m k default f) := by
  intro k₁ m₂ hm₂
  rw [update, getElem?_modifyAt] at hm₂
  split at hm₂
  next hk₁ =>
    obtain rfl := Option.some.inj hm₂
    refine ⟨isEmpty_modifyAt _ _ _ _, ?_⟩
    intro k₂ m₃ hm₃
    rw [getElem?_modifyAt] at hm₃
    split at hm₃
    next hk₂ =>
      obtain rfl := Option.some.inj hm₃
      exact isEmpty_modifyAt _ _ _ _
    next hk₂ =>
      rw [getElem?_getD_empty, Option.bind_eq_some_iff] at hm₃
      obtain ⟨m₂', hm₂', hm₃⟩ := hm₃
      exact (hm _ _ hm₂').2 k₂ m₃ hm₃
  next hk₁ => exact hm k₁ m₂ hm₂

theorem noEmpty_collect [DecidableEq κ] (key : ι → κ × κ × κ) (default : β)
    (f : ι → β → β) (xs : List ι) : NoEmpty (collect key default f xs) := by
  have hfold (m : NestedMap κ β) (hm : NoEmpty m) :
      NoEmpty (xs.foldl (fun m x => update m (key x) default (f x)) m) := by
    induction xs generalizing m with
    | nil => exact hm
    | cons x xs ih => exact ih _ (noEmpty_update hm _ _ _)
  exact hfold ∅ noEmpty_empty

/-! ## Flattening -/

theorem mem_mapEntries_iff {δ : Type w} {g : κ → β → δ} {m : TreeMap κ β}
    {d : δ} :
    d ∈ mapEntries g m ↔ ∃ k b, m[k]? = some b ∧ g k b = d := by
  simp only [mapEntries, List.mem_map, Prod.exists,
    TreeMap.mem_toList_iff_getElem?_eq_some]

/-- The images come in the order of the keys. -/
theorem pairwise_mapEntries {δ : Type w} {g : κ → β → δ} {m : TreeMap κ β}
    {R : δ → δ → Prop}
    (h : ∀ (k k' : κ) (b b' : β), m[k]? = some b → m[k']? = some b' →
      compare k k' = .lt → R (g k b) (g k' b')) :
    (mapEntries g m).Pairwise R := by
  rw [mapEntries, List.pairwise_map]
  apply TreeMap.ordered_keys_toList.imp_of_mem
  intro p p' hp hp' hlt
  exact h _ _ _ _ (TreeMap.mem_toList_iff_getElem?_eq_some.mp hp)
    (TreeMap.mem_toList_iff_getElem?_eq_some.mp hp') hlt

omit [TransOrd κ] [LawfulEqOrd κ] in
theorem mapEntries_ne_nil {δ : Type w} (g : κ → β → δ) {m : TreeMap κ β}
    (h : m.isEmpty = false) : mapEntries g m ≠ [] := by
  rw [mapEntries, ne_eq, List.map_eq_nil_iff]
  exact toList_ne_nil h

/-- Images of the entries in key order depend only on the images of the
lookups. -/
theorem mapEntries_congr {γ : Type w} {δ : Type w'} {m : TreeMap κ β}
    {m' : TreeMap κ γ} {g : κ → β → δ} {g' : κ → γ → δ}
    (h : ∀ k : κ, m[k]?.map (g k) = m'[k]?.map (g' k)) :
    mapEntries g m = mapEntries g' m' := by
  have hequiv : (m.map g).Equiv (m'.map g') := by
    apply TreeMap.Equiv.of_forall_constGet?_eq
    intro k
    rw [TreeMap.getElem?_map, TreeMap.getElem?_map, h k]
  have hlists := hequiv.toList_eq
  rw [TreeMap.toList_map, TreeMap.toList_map] at hlists
  simpa [mapEntries, Function.comp_def] using
    congrArg (List.map Prod.snd) hlists

theorem lookup_mapValues {γ : Type w} (f : β → γ) (m : NestedMap κ β)
    (k : κ × κ × κ) : lookup (mapValues f m) k = (lookup m k).map f := by
  obtain ⟨a, b, c⟩ := k
  simp only [lookup, mapValues, TreeMap.getElem?_map]
  cases m[a]? with
  | none => rfl
  | some m₂ =>
      simp only [Option.map_some, Option.bind_some, TreeMap.getElem?_map]
      cases m₂[b]? with
      | none => rfl
      | some m₃ => simp [TreeMap.getElem?_map]

theorem noEmpty_mapValues {γ : Type w} (f : β → γ) {m : NestedMap κ β}
    (hm : NoEmpty m) : NoEmpty (mapValues f m) := by
  intro k₁ m₂ hm₂
  rw [mapValues, TreeMap.getElem?_map, Option.map_eq_some_iff] at hm₂
  obtain ⟨n₂, hn₂, rfl⟩ := hm₂
  obtain ⟨hne₂, hne₃⟩ := hm k₁ n₂ hn₂
  refine ⟨by rw [TreeMap.isEmpty_map, hne₂], ?_⟩
  intro k₂ m₃ hm₃
  rw [TreeMap.getElem?_map, Option.map_eq_some_iff] at hm₃
  obtain ⟨n₃, hn₃, rfl⟩ := hm₃
  rw [TreeMap.isEmpty_map, hne₃ k₂ n₃ hn₃]

/-- A nonempty map has an entry. -/
theorem exists_getElem?_of_isEmpty_eq_false {m : TreeMap κ β}
    (h : m.isEmpty = false) : ∃ (k : κ) (b : β), m[k]? = some b := by
  obtain ⟨p, hp⟩ := List.exists_mem_of_ne_nil _ (toList_ne_nil h)
  exact ⟨p.1, p.2, TreeMap.mem_toList_iff_getElem?_eq_some.mp hp⟩

/-- Two maps with the same keys and entrywise equal images list the same
images. -/
theorem mapEntries_congr_of_keys {γ : Type w} {δ : Type w'}
    {m : TreeMap κ β} {m' : TreeMap κ γ} {g : κ → β → δ} {g' : κ → γ → δ}
    (hkeys : ∀ k : κ, m[k]?.isSome ↔ m'[k]?.isSome)
    (hvalues : ∀ (k : κ) (b : β) (c : γ),
      m[k]? = some b → m'[k]? = some c → g k b = g' k c) :
    mapEntries g m = mapEntries g' m' := by
  apply mapEntries_congr
  intro k
  have hk := hkeys k
  cases hb : m[k]? with
  | none =>
      cases hc : m'[k]? with
      | none => rfl
      | some c => simp [hb, hc] at hk
  | some b =>
      cases hc : m'[k]? with
      | none => simp [hb, hc] at hk
      | some c => simp [hvalues k b c hb hc]

/-- The outer keys are the first components of the triples in use. -/
theorem isSome_getElem?_iff {m : NestedMap κ β} (hm : NoEmpty m) (k₁ : κ) :
    m[k₁]?.isSome ↔ ∃ k₂ k₃ b, lookup m (k₁, k₂, k₃) = some b := by
  simp only [lookup_eq_some_iff, Option.isSome_iff_exists]
  constructor
  · intro h
    rcases h with ⟨m₂, hm₂⟩
    obtain ⟨hne₂, hne₃⟩ := hm k₁ m₂ hm₂
    obtain ⟨k₂, m₃, hm₃⟩ := exists_getElem?_of_isEmpty_eq_false hne₂
    obtain ⟨k₃, b, hb⟩ := exists_getElem?_of_isEmpty_eq_false (hne₃ k₂ m₃ hm₃)
    exact ⟨k₂, k₃, b, m₂, hm₂, m₃, hm₃, hb⟩
  · intro h
    rcases h with ⟨-, -, -, m₂, hm₂, -⟩
    exact ⟨m₂, hm₂⟩

/-- The keys below an outer key are the second components of its triples. -/
theorem isSome_getElem?_inner_iff {m : NestedMap κ β} (hm : NoEmpty m)
    {k₁ : κ} {m₂ : TreeMap κ (TreeMap κ β)} (hm₂ : m[k₁]? = some m₂) (k₂ : κ) :
    m₂[k₂]?.isSome ↔ ∃ k₃ b, lookup m (k₁, k₂, k₃) = some b := by
  simp only [lookup_eq_some_iff, Option.isSome_iff_exists, hm₂,
    Option.some.injEq, exists_eq_left']
  constructor
  · intro h
    rcases h with ⟨m₃, hm₃⟩
    obtain ⟨k₃, b, hb⟩ :=
      exists_getElem?_of_isEmpty_eq_false ((hm k₁ m₂ hm₂).2 k₂ m₃ hm₃)
    exact ⟨k₃, b, m₃, hm₃, hb⟩
  · intro h
    rcases h with ⟨-, -, m₃, hm₃, -⟩
    exact ⟨m₃, hm₃⟩

/-- Flattened maps with the same lookups are equal. -/
theorem flatten_congr {δ₁ δ₂ δ₃ : Type w} {g₁ : κ → List δ₂ → δ₁}
    {g₂ : κ → List δ₃ → δ₂} {g₃ : κ → β → δ₃} {m m' : NestedMap κ β}
    (hm : NoEmpty m) (hm' : NoEmpty m')
    (h : ∀ k, lookup m k = lookup m' k) :
    flatten g₁ g₂ g₃ m = flatten g₁ g₂ g₃ m' := by
  apply mapEntries_congr_of_keys
  · intro k₁
    simp only [isSome_getElem?_iff hm, isSome_getElem?_iff hm', h]
  intro k₁ m₂ m₂' hm₂ hm₂'
  refine congrArg (g₁ k₁) (mapEntries_congr_of_keys ?_ ?_)
  · intro k₂
    rw [isSome_getElem?_inner_iff hm hm₂, isSome_getElem?_inner_iff hm' hm₂']
    simp only [h]
  intro k₂ m₃ m₃' hm₃ hm₃'
  refine congrArg (g₂ k₂) (mapEntries_congr fun k₃ => ?_)
  have hk := h (k₁, k₂, k₃)
  simp only [lookup, hm₂, hm₂', Option.bind_some, hm₃, hm₃'] at hk
  rw [hk]

end NestedMap
