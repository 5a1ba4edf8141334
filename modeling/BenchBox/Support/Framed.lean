import Mathlib.Data.List.Forall2
import Mathlib.Data.Nat.Notation

/-!
# Framed records

Records of different sizes, one after another in a buffer.  A walk reads the
record at the front, goes on behind it by its size, and ends with the buffer.
Where a size is zero it does not get on and never ends.
-/

namespace Framed

variable {β : Type u} {ρ : Type v} {σ : Type w}

/-- How the record at the front of a buffer is read. -/
structure Format (β : Type u) (ρ : Type v) where
  size : List β → ℕ
  read : List β → ρ

/-- A frame is read as a record, whatever follows it. -/
structure Format.Encodes (format : Format β ρ) (record : ρ)
    (frame : List β) : Prop where
  ne_nil : frame ≠ []
  size : ∀ rest, format.size (frame ++ rest) = frame.length
  read : ∀ rest, format.read (frame ++ rest) = record

/-- A walk of at most `fuel` rounds; `none` if they do not suffice. -/
def walk (format : Format β ρ) (f : σ → ρ → σ) :
    ℕ → σ → List β → Option σ
  | _, s, [] => some s
  | 0, _, _ :: _ => none
  | fuel + 1, s, b :: buffer =>
      walk format f fuel (f s (format.read (b :: buffer)))
        ((b :: buffer).drop (format.size (b :: buffer)))

/-- The records that a walk reads. -/
def records (format : Format β ρ) : ℕ → List β → Option (List ρ)
  | _, [] => some []
  | 0, _ :: _ => none
  | fuel + 1, b :: buffer =>
      (records format fuel
          ((b :: buffer).drop (format.size (b :: buffer)))).map
        (format.read (b :: buffer) :: ·)

variable {format : Format β ρ} {fuel : ℕ} {buffer : List β}

/-- A walk is a fold over what it reads, so any two walks over a buffer read the
same. -/
theorem walk_eq (f : σ → ρ → σ) (fuel : ℕ) (s : σ) (buffer : List β) :
    walk format f fuel s buffer =
      (records format fuel buffer).map (List.foldl f s) := by
  induction fuel generalizing s buffer with
  | zero =>
      cases buffer with
      | nil => rfl
      | cons b buffer => rfl
  | succ fuel ih =>
      cases buffer with
      | nil => rfl
      | cons b buffer =>
          rw [walk, records, ih, Option.map_map]
          rfl

/-! ## Enough rounds -/

theorem records_of_size_eq_zero (hne : buffer ≠ [])
    (hsize : format.size buffer = 0) (fuel : ℕ) :
    records format fuel buffer = none := by
  obtain ⟨b, buffer, rfl⟩ := List.exists_cons_of_ne_nil hne
  induction fuel with
  | zero => rfl
  | succ fuel ih =>
      rw [records, hsize, List.drop_zero, ih]
      rfl

theorem records_mono {read : List ρ} {more : ℕ} (hle : fuel ≤ more)
    (h : records format fuel buffer = some read) :
    records format more buffer = some read := by
  induction fuel generalizing buffer more read with
  | zero =>
      cases buffer with
      | nil =>
          rw [records] at h ⊢
          exact h
      | cons b buffer => cases h
  | succ fuel ih =>
      obtain ⟨more, rfl⟩ : ∃ m, more = m + 1 := ⟨more - 1, by omega⟩
      cases buffer with
      | nil => exact h
      | cons b buffer =>
          rw [records, Option.map_eq_some_iff] at h ⊢
          obtain ⟨rest, hrest, rfl⟩ := h
          exact ⟨rest, ih (by omega) hrest, rfl⟩

/-- A walk that ends does so within as many rounds as the buffer is long. -/
theorem records_length {read : List ρ}
    (h : records format fuel buffer = some read) :
    records format buffer.length buffer = some read := by
  induction fuel generalizing buffer read with
  | zero =>
      cases buffer with
      | nil => exact h
      | cons b buffer => cases h
  | succ fuel ih =>
      cases buffer with
      | nil => exact h
      | cons b buffer =>
          have hsize : format.size (b :: buffer) ≠ 0 := by
            intro hzero
            rw [records_of_size_eq_zero (List.cons_ne_nil b buffer) hzero] at h
            cases h
          rw [records, Option.map_eq_some_iff] at h
          obtain ⟨rest, hrest, rfl⟩ := h
          have hlength : ((b :: buffer).drop
              (format.size (b :: buffer))).length ≤ buffer.length := by
            rw [List.length_drop, List.length_cons]
            omega
          rw [List.length_cons, records, records_mono hlength (ih hrest)]
          rfl

/-! ## Frames -/

/-- Behind whole frames a walk is where they end. -/
theorem records_append {rs : List ρ} {frames : List (List β)}
    (h : List.Forall₂ format.Encodes rs frames) (fuel : ℕ) (rest : List β) :
    records format (frames.length + fuel) (frames.flatten ++ rest) =
      (records format fuel rest).map (rs ++ ·) := by
  induction h with
  | nil =>
      rw [List.length_nil, Nat.zero_add, List.flatten_nil, List.nil_append]
      exact Option.map_id'.symm
  | @cons r frame rs frames hframe hframes ih =>
      have hsize := hframe.size (frames.flatten ++ rest)
      have hread := hframe.read (frames.flatten ++ rest)
      have hdrop : (frame ++ (frames.flatten ++ rest)).drop frame.length =
          frames.flatten ++ rest := List.drop_left
      obtain ⟨b, tail, rfl⟩ := List.exists_cons_of_ne_nil hframe.ne_nil
      rw [List.cons_append] at hsize hread hdrop
      rw [List.length_cons, Nat.add_right_comm, List.flatten_cons,
        List.append_assoc, List.cons_append, records, hsize, hread, hdrop, ih,
        Option.map_map]
      rfl

/-- A walk over frames reads their records. -/
theorem records_flatten {rs : List ρ} {frames : List (List β)}
    (h : List.Forall₂ format.Encodes rs frames) :
    records format frames.flatten.length frames.flatten = some rs := by
  have hwalk := records_append h 0 []
  rw [List.append_nil, records, Option.map_some, List.append_nil] at hwalk
  exact records_length hwalk

/-- A walk that meets a size of zero behind some frames never ends. -/
theorem records_append_of_size_eq_zero {rs : List ρ} {frames : List (List β)}
    (h : List.Forall₂ format.Encodes rs frames) {rest : List β}
    (hne : rest ≠ []) (hsize : format.size rest = 0) (fuel : ℕ) :
    records format fuel (frames.flatten ++ rest) = none := by
  have hwalk := records_append h fuel rest
  rw [records_of_size_eq_zero hne hsize, Option.map_none] at hwalk
  rw [Option.eq_none_iff_forall_ne_some]
  intro read hread
  rw [records_mono (Nat.le_add_left fuel frames.length) hread] at hwalk
  cases hwalk

end Framed
