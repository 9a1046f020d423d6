import EditorSettings.Text.Basic

/-!
# Sets of code points

The members of a character class.  A class may name ranges of many thousand code points, so a
set is kept as its maximal ranges in ascending order: no two of them overlap or touch.  That
form is unique, so two sets with the same members are the same set.

* `CodeSet.insertRange` and `CodeSet.remove` add a range and take a code point away;
* `CodeSet.ofRanges` and `CodeSet.ofList` collect ranges and single code points;
* `n ∈ s` is membership, decided by `CodeSet.contains`; `mem_insertRange`, `mem_remove` and
  `mem_ofRanges` say what each operation does to it;
* `CodeSet.toList` lists the members in ascending order (`mem_toList`).
-/

namespace EditorSettings

/-- Ascending ranges, each starting at least at `start`, with a gap between two neighbours. -/
def Separated : Nat → List (Nat × Nat) → Prop
  | _, [] => True
  | start, (low, high) :: rest => start ≤ low ∧ low ≤ high ∧ Separated (high + 2) rest

theorem Separated.mono {start start' : Nat} {ranges : List (Nat × Nat)} (le : start' ≤ start)
    (h : Separated start ranges) : Separated start' ranges := by
  cases ranges with
  | nil => trivial
  | cons r rest => exact ⟨Nat.le_trans le h.1, h.2⟩

/-- A set of code points, as its maximal ranges. -/
structure CodeSet where
  /-- The ranges, first and last member of each. -/
  ranges : List (Nat × Nat)
  separated : Separated 0 ranges

namespace CodeSet

@[ext] theorem ext_ranges {s t : CodeSet} (h : s.ranges = t.ranges) : s = t := by
  cases s; cases t; cases h; rfl

instance : DecidableEq CodeSet := fun s t =>
  if h : s.ranges = t.ranges then isTrue (ext_ranges h) else isFalse fun e => h (e ▸ rfl)

/-! ## Membership -/

def InRanges (n : Nat) (ranges : List (Nat × Nat)) : Prop := ∃ r ∈ ranges, r.1 ≤ n ∧ n ≤ r.2

def contains (s : CodeSet) (n : Nat) : Bool := Text.inRanges n s.ranges

instance : Membership Nat CodeSet := ⟨fun s n => s.contains n = true⟩

instance (n : Nat) (s : CodeSet) : Decidable (n ∈ s) :=
  inferInstanceAs (Decidable (s.contains n = true))

@[simp] theorem inRanges_nil (n : Nat) : ¬ InRanges n [] := by simp [InRanges]

@[simp] theorem inRanges_cons (n : Nat) (r : Nat × Nat) (rest : List (Nat × Nat)) :
    InRanges n (r :: rest) ↔ (r.1 ≤ n ∧ n ≤ r.2) ∨ InRanges n rest := by
  simp [InRanges]

theorem Separated.start_le {n start : Nat} {ranges : List (Nat × Nat)}
    (h : Separated start ranges) (hn : InRanges n ranges) : start ≤ n := by
  induction ranges generalizing start with
  | nil => exact absurd hn (inRanges_nil n)
  | cons r rest ih =>
    obtain ⟨h₁, h₂, h₃⟩ := h
    rcases (inRanges_cons n r rest).1 hn with hr | hr
    · omega
    · have := ih h₃ hr
      omega

/-- Stopping at the first range past `n` misses nothing in ascending ranges. -/
theorem lookup_iff {n start : Nat} {ranges : List (Nat × Nat)} (h : Separated start ranges) :
    Text.inRanges n ranges = true ↔ InRanges n ranges := by
  induction ranges generalizing start with
  | nil => simp [Text.inRanges]
  | cons r rest ih =>
    obtain ⟨low, high⟩ := r
    obtain ⟨h₁, h₂, h₃⟩ := h
    have after : InRanges n rest → high + 2 ≤ n := fun hn => Separated.start_le h₃ hn
    simp only [Text.inRanges, Bool.and_eq_true, decide_eq_true_eq, Bool.or_eq_true, ih h₃,
      inRanges_cons]
    constructor
    · rintro ⟨h, h' | h'⟩
      · exact .inl ⟨h, h'⟩
      · exact .inr h'
    · rintro (⟨h, h'⟩ | h')
      · exact ⟨h, .inl h'⟩
      · have := after h'
        exact ⟨by omega, .inr h'⟩

theorem mem_iff {n : Nat} {s : CodeSet} : n ∈ s ↔ InRanges n s.ranges := lookup_iff s.separated

theorem contains_iff {n : Nat} {s : CodeSet} : s.contains n = true ↔ n ∈ s := Iff.rfl

/-! ## Adding a range -/

def empty : CodeSet := ⟨[], trivial⟩

instance : Inhabited CodeSet := ⟨empty⟩

@[simp] theorem not_mem_empty (n : Nat) : ¬ n ∈ empty := by simp [mem_iff, empty]

/-- Add the range from `low` to `high`, absorbing every range that it overlaps or touches. -/
def absorb (low high : Nat) : List (Nat × Nat) → List (Nat × Nat)
  | [] => [(low, high)]
  | (a, b) :: rest =>
    -- the two tests leave a gap of at least one code point between neighbours
    if high + 1 < a then (low, high) :: (a, b) :: rest
    else if b + 1 < low then (a, b) :: absorb low high rest
    else absorb (min low a) (max high b) rest

theorem separated_absorb {low high start : Nat} {ranges : List (Nat × Nat)} (le : low ≤ high)
    (h : Separated start ranges) : Separated (min start low) (absorb low high ranges) := by
  induction ranges generalizing low high start with
  | nil => exact ⟨Nat.min_le_right _ _, le, trivial⟩
  | cons r rest ih =>
    obtain ⟨a, b⟩ := r
    obtain ⟨h₁, h₂, h₃⟩ := h
    simp only [absorb]
    split
    · exact ⟨by omega, le, by omega, h₂, h₃⟩
    · split
      · exact ⟨by omega, h₂, Separated.mono (by omega) (ih le h₃)⟩
      · exact Separated.mono (by omega) (ih (by omega) h₃)

theorem inRanges_absorb {n low high : Nat} {ranges : List (Nat × Nat)} (le : low ≤ high)
    (valid : ∀ r ∈ ranges, r.1 ≤ r.2) :
    InRanges n (absorb low high ranges) ↔ (low ≤ n ∧ n ≤ high) ∨ InRanges n ranges := by
  induction ranges generalizing low high with
  | nil => simp [absorb]
  | cons r rest ih =>
    obtain ⟨a, b⟩ := r
    have hab : a ≤ b := valid (a, b) (by simp)
    have rest_valid : ∀ r ∈ rest, r.1 ≤ r.2 := fun r hr => valid r (by simp [hr])
    simp only [absorb]
    split
    · simp
    · split
      · simp only [inRanges_cons, ih le rest_valid]
        constructor <;> (intro h; rcases h with h | h | h <;> simp [h])
      · -- the two ranges overlap or touch, so their union has no hole
        rw [ih (by omega) rest_valid, inRanges_cons]
        constructor
        · rintro (h | h)
          · by_cases hn : low ≤ n ∧ n ≤ high
            · exact .inl hn
            · exact .inr (.inl (by omega))
          · exact .inr (.inr h)
        · rintro (h | h | h)
          · exact .inl (by omega)
          · exact .inl (by omega)
          · exact .inr h

theorem Separated.valid {start : Nat} {ranges : List (Nat × Nat)} (h : Separated start ranges) :
    ∀ r ∈ ranges, r.1 ≤ r.2 := by
  induction ranges generalizing start with
  | nil => simp
  | cons r rest ih =>
    intro r' hr'
    rcases List.mem_cons.1 hr' with rfl | hr'
    · exact h.2.1
    · exact ih h.2.2 r' hr'

/-- Add every code point from `low` to `high`; there is none if `high` is less than `low`. -/
def insertRange (s : CodeSet) (low high : Nat) : CodeSet :=
  if le : low ≤ high then
    ⟨absorb low high s.ranges, by simpa using separated_absorb le s.separated⟩
  else s

theorem mem_insertRange {n low high : Nat} {s : CodeSet} :
    n ∈ s.insertRange low high ↔ (low ≤ n ∧ n ≤ high) ∨ n ∈ s := by
  unfold insertRange
  split
  · next le =>
    rw [mem_iff, mem_iff]
    exact inRanges_absorb le (Separated.valid s.separated)
  · next le =>
    constructor
    · exact .inr
    · rintro (h | h)
      · omega
      · exact h

def ofRanges (ranges : List (Nat × Nat)) : CodeSet :=
  ranges.foldl (fun s r => s.insertRange r.1 r.2) empty

def ofList (codes : List Nat) : CodeSet := ofRanges (codes.map fun n => (n, n))

private theorem mem_foldl_insertRange {n : Nat} (ranges : List (Nat × Nat)) (s : CodeSet) :
    n ∈ ranges.foldl (fun s r => s.insertRange r.1 r.2) s ↔ n ∈ s ∨ InRanges n ranges := by
  induction ranges generalizing s with
  | nil => simp
  | cons r rest ih =>
    rw [List.foldl_cons, ih, mem_insertRange, inRanges_cons]
    constructor
    · rintro ((h | h) | h) <;> simp [h]
    · rintro (h | h | h) <;> simp [h]

theorem mem_ofRanges {n : Nat} {ranges : List (Nat × Nat)} :
    n ∈ ofRanges ranges ↔ ∃ r ∈ ranges, r.1 ≤ n ∧ n ≤ r.2 := by
  rw [ofRanges, mem_foldl_insertRange]
  simp [InRanges]

theorem mem_ofList {n : Nat} {codes : List Nat} : n ∈ ofList codes ↔ n ∈ codes := by
  rw [ofList, mem_ofRanges]
  constructor
  · rintro ⟨r, hr, h₁, h₂⟩
    obtain ⟨m, hm, rfl⟩ := List.mem_map.1 hr
    have : n = m := Nat.le_antisymm h₂ h₁
    exact this ▸ hm
  · exact fun h => ⟨(n, n), List.mem_map.2 ⟨n, h, rfl⟩, Nat.le_refl n, Nat.le_refl n⟩

/-! ## Taking a code point away -/

/-- Cut `n` out of the range that holds it. -/
def cut (n : Nat) : List (Nat × Nat) → List (Nat × Nat)
  | [] => []
  | (low, high) :: rest =>
    if high < n then (low, high) :: cut n rest
    else if n < low then (low, high) :: rest
    else
      (if low < n then [(low, n - 1)] else []) ++ (if n < high then [(n + 1, high)] else [])
        ++ rest

theorem separated_cut {n start : Nat} {ranges : List (Nat × Nat)} (h : Separated start ranges) :
    Separated start (cut n ranges) := by
  induction ranges generalizing start with
  | nil => trivial
  | cons r rest ih =>
    obtain ⟨low, high⟩ := r
    obtain ⟨h₁, h₂, h₃⟩ := h
    simp only [cut]
    split
    · exact ⟨h₁, h₂, ih h₃⟩
    · split
      · exact ⟨h₁, h₂, h₃⟩
      · by_cases hl : low < n <;> by_cases hh : n < high <;>
          simp only [hl, hh, if_true, if_false, List.nil_append, List.cons_append]
        · exact ⟨h₁, by omega, by omega, by omega, h₃⟩
        · exact ⟨h₁, by omega, Separated.mono (by omega) h₃⟩
        · exact ⟨by omega, by omega, h₃⟩
        · exact Separated.mono (by omega) h₃

theorem inRanges_cut {m n start : Nat} {ranges : List (Nat × Nat)}
    (h : Separated start ranges) : InRanges m (cut n ranges) ↔ m ≠ n ∧ InRanges m ranges := by
  induction ranges generalizing start with
  | nil => simp [cut]
  | cons r rest ih =>
    obtain ⟨low, high⟩ := r
    obtain ⟨h₁, h₂, h₃⟩ := h
    have after : InRanges m rest → high + 2 ≤ m := fun hm => Separated.start_le h₃ hm
    simp only [cut]
    split
    · simp only [inRanges_cons, ih h₃]
      constructor
      · rintro (h | h)
        · exact ⟨by omega, .inl h⟩
        · exact ⟨h.1, .inr h.2⟩
      · rintro ⟨h, h' | h'⟩
        · exact .inl h'
        · exact .inr ⟨h, h'⟩
    · split
      · simp only [inRanges_cons]
        constructor
        · rintro (h | h)
          · exact ⟨by omega, .inl h⟩
          · have := after h
            exact ⟨by omega, .inr h⟩
        · rintro ⟨_, h⟩
          exact h
      · by_cases hl : low < n <;> by_cases hh : n < high <;>
          simp only [hl, hh, if_true, if_false, List.nil_append, List.cons_append, inRanges_cons]
        all_goals
          -- members of the later ranges lie past this one, so the cut does not concern them
          by_cases hm : InRanges m rest
          · have := after hm
            simp only [hm, or_true, and_true, true_iff]
            omega
          · simp only [hm, or_false, false_iff]
            omega

def remove (s : CodeSet) (n : Nat) : CodeSet := ⟨cut n s.ranges, separated_cut s.separated⟩

theorem mem_remove {m n : Nat} {s : CodeSet} : m ∈ s.remove n ↔ m ≠ n ∧ m ∈ s := by
  rw [mem_iff, mem_iff]
  exact inRanges_cut s.separated

/-! ## Listing the members -/

def toList (s : CodeSet) : List Nat :=
  s.ranges.flatMap fun r => List.range' r.1 (r.2 + 1 - r.1)

theorem mem_toList {n : Nat} {s : CodeSet} : n ∈ s.toList ↔ n ∈ s := by
  rw [mem_iff, toList, InRanges]
  simp only [List.mem_flatMap, List.mem_range'_1]
  constructor
  · rintro ⟨r, hr, h₁, h₂⟩
    exact ⟨r, hr, h₁, by omega⟩
  · rintro ⟨r, hr, h₁, h₂⟩
    exact ⟨r, hr, h₁, by omega⟩

def size (s : CodeSet) : Nat := s.ranges.foldr (fun r n => r.2 + 1 - r.1 + n) 0

def isEmpty (s : CodeSet) : Bool := s.ranges.isEmpty

def single? (s : CodeSet) : Option Nat :=
  match s.ranges with
  | [(low, high)] => if low = high then some low else none
  | _ => none

end CodeSet

end EditorSettings
