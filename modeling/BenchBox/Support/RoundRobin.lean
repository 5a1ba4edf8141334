import BenchBox.Support.Ragged
import Mathlib.Data.List.Nodup

/-!
# Fair rounds

A schedule is a list of rounds, one after the other.  If a key occurs at most
once in a round and does not come back after a round without it, then every
prefix of the schedule treats any two keys alike: the counts differ by at most
one unless the key behind is used up.
-/

namespace RoundRobin

variable {α κ : Type*} {key : α → κ}

/-- No key twice in a round, and none returns after missing one. -/
structure Rounds (key : α → κ) (rounds : List (List α)) : Prop where
  nodup : ∀ round ∈ rounds, (round.map key).Nodup
  fading : rounds.Pairwise fun round later => ∀ x ∈ later, key x ∈ round.map key

theorem Rounds.tail {round : List α} {rounds : List (List α)}
    (h : Rounds key (round :: rounds)) : Rounds key rounds where
  nodup := fun later hlater => h.nodup later (List.mem_cons_of_mem round hlater)
  fading := h.fading.of_cons

/-- Rounds with the same keys in each are fair. -/
theorem Rounds.of_forall_mem {rounds : List (List α)}
    (hnodup : ∀ round ∈ rounds, (round.map key).Nodup)
    (hmem : ∀ round ∈ rounds, ∀ later ∈ rounds, ∀ x ∈ later,
      key x ∈ round.map key) : Rounds key rounds where
  nodup := hnodup
  fading := List.pairwise_of_forall_mem_list hmem

section Share

variable [DecidableEq κ]

/-- The number of entries with the key `k`. -/
def share (key : α → κ) (k : κ) (xs : List α) : ℕ :=
  xs.countP (key · = k)

theorem share_append (k : κ) (xs ys : List α) :
    share key k (xs ++ ys) = share key k xs + share key k ys :=
  List.countP_append

theorem share_le_one {xs : List α} (h : (xs.map key).Nodup) (k : κ) :
    share key k xs ≤ 1 := by
  have hcount : (xs.map key).count k ≤ 1 := List.nodup_iff_count_le_one.mp h k
  rwa [List.count, List.countP_map] at hcount

theorem share_eq_one {xs : List α} (h : (xs.map key).Nodup) {k : κ}
    (hk : k ∈ xs.map key) : share key k xs = 1 := by
  have hcount : (xs.map key).count k = 1 := List.count_eq_one_of_mem h hk
  rwa [List.count, List.countP_map] at hcount

theorem share_eq_zero_iff {xs : List α} {k : κ} :
    share key k xs = 0 ↔ ∀ x ∈ xs, key x ≠ k := by
  simp [share]

theorem share_take_le (key : α → κ) (k : κ) (n : ℕ) (xs : List α) :
    share key k (xs.take n) ≤ share key k xs :=
  (List.take_sublist n xs).countP_le

/-- A prefix with the whole share of `k` has all its entries. -/
theorem mem_take_of_share_eq {xs : List α} {k : κ} {n : ℕ}
    (h : share key k (xs.take n) = share key k xs) {x : α} (hx : x ∈ xs)
    (hk : key x = k) : x ∈ xs.take n := by
  have hsplit : share key k xs =
      share key k (xs.take n) + share key k (xs.drop n) := by
    rw [← share_append, List.take_append_drop]
  have hrest : share key k (xs.drop n) = 0 := by omega
  rw [← List.take_append_drop n xs, List.mem_append] at hx
  rcases hx with hx | hx
  · exact hx
  · exact absurd hk (share_eq_zero_iff.mp hrest x hx)

/-- A prefix of fair rounds has at most one entry more of `k` than of `k'`, or
the whole share of `k'`. -/
theorem Rounds.share_take_le_or_eq {rounds : List (List α)}
    (h : Rounds key rounds) (n : ℕ) (k k' : κ) :
    share key k (rounds.flatten.take n) ≤
        share key k' (rounds.flatten.take n) + 1 ∨
      share key k' (rounds.flatten.take n) =
        share key k' rounds.flatten := by
  induction rounds generalizing n with
  | nil => simp
  | cons round rounds ih =>
      have hround := h.nodup round List.mem_cons_self
      rw [List.flatten_cons]
      by_cases hn : n ≤ round.length
      · -- the prefix ends within the first round
        left
        rw [List.take_append_of_le_length hn]
        have hle := (share_take_le key k n round).trans (share_le_one hround k)
        omega
      · obtain ⟨m, rfl⟩ := Nat.exists_eq_add_of_le (Nat.le_of_not_le hn)
        rw [List.take_length_add_append, share_append, share_append,
          share_append]
        by_cases hk' : k' ∈ round.map key
        · have hone := share_eq_one hround hk'
          have hle' := share_le_one hround k
          rcases ih h.tail m with hle | heq
          · left
            omega
          · right
            omega
        · -- a key missing here is missing from every later round
          have hnone : share key k' rounds.flatten = 0 := by
            rw [share_eq_zero_iff]
            intro x hx hxk
            obtain ⟨later, hlater, hx⟩ := List.mem_flatten.mp hx
            have hmem := List.rel_of_pairwise_cons h.fading hlater x hx
            exact hk' (hxk ▸ hmem)
          have hle := share_take_le key k' m rounds.flatten
          right
          omega

theorem Rounds.share_flatten_le {rounds : List (List α)}
    (h : Rounds key rounds) (k : κ) :
    share key k rounds.flatten ≤ rounds.length := by
  induction rounds with
  | nil => simp [share]
  | cons round rounds ih =>
      have hone := share_le_one (h.nodup round List.mem_cons_self) k
      have hrest := ih h.tail
      rw [List.flatten_cons, share_append, List.length_cons]
      omega

theorem Rounds.share_flatten_eq {rounds : List (List α)}
    (h : Rounds key rounds) {k : κ}
    (hk : ∀ round ∈ rounds, k ∈ round.map key) :
    share key k rounds.flatten = rounds.length := by
  induction rounds with
  | nil => simp [share]
  | cons round rounds ih =>
      have hone := share_eq_one (h.nodup round List.mem_cons_self)
        (hk round List.mem_cons_self)
      have hrest := ih h.tail fun later hlater =>
        hk later (List.mem_cons_of_mem round hlater)
      rw [List.flatten_cons, share_append, List.length_cons]
      omega

/-- If `k'` is in every round, no key gets ahead of it by more than one. -/
theorem Rounds.share_take_le_of_mem {rounds : List (List α)}
    (h : Rounds key rounds) {k' : κ}
    (hk' : ∀ round ∈ rounds, k' ∈ round.map key) (n : ℕ) (k : κ) :
    share key k (rounds.flatten.take n) ≤
      share key k' (rounds.flatten.take n) + 1 := by
  rcases h.share_take_le_or_eq n k k' with hle | heq
  · exact hle
  · have hwhole := h.share_flatten_eq hk'
    have hbound := h.share_flatten_le k
    have htaken := share_take_le key k n rounds.flatten
    omega

end Share

/-! ## Columns as rounds -/

/-- The columns of rows with one key each, all different, are fair rounds. -/
theorem rounds_columns {rows : List (List α)}
    (hrow : ∀ row ∈ rows, ∀ a ∈ row, ∀ b ∈ row, key a = key b)
    (hrows : rows.Pairwise fun row row' =>
      ∀ a ∈ row, ∀ b ∈ row', key a ≠ key b) (n : ℕ) :
    Rounds key ((List.range n).map (Ragged.column rows)) where
  nodup := by
    intro round hround
    obtain ⟨i, -, rfl⟩ := List.mem_map.mp hround
    rw [List.Nodup, List.pairwise_map]
    apply Ragged.pairwise_column
    refine hrows.imp ?_
    intro row row' hne a ha b hb
    exact hne a (List.mem_of_getElem? ha) b (List.mem_of_getElem? hb)
  fading := by
    rw [List.pairwise_map]
    refine List.pairwise_lt_range.imp ?_
    intro i j hij x hx
    obtain ⟨row, hmem, hget⟩ := Ragged.mem_column_iff.mp hx
    obtain ⟨hj, -⟩ := List.getElem?_eq_some_iff.mp hget
    have hi : i < row.length := by omega
    have hearlier : row[i]? = some row[i] := List.getElem?_eq_getElem hi
    refine List.mem_map.mpr ⟨_, Ragged.mem_column_iff.mpr
      ⟨row, hmem, hearlier⟩, ?_⟩
    exact hrow row hmem _ (List.mem_of_getElem? hearlier) x
      (List.mem_of_getElem? hget)

end RoundRobin
