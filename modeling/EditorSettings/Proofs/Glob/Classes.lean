import EditorSettings.Glob.CodeSet

/-! # Sets by their members

What the compiler asks of a set of code points (whether it is empty, how many members it has, which
one is the only one) is read off its ranges.  Here the answers are tied to the members, and the form
that a set is kept in is shown to be the only one with those members (`eq_of_mem_iff`).
-/

namespace EditorSettings.CodeSet

/-! ## Counting -/

theorem isEmpty_iff {s : CodeSet} : s.isEmpty = true ↔ ∀ n, n ∉ s := by
  obtain ⟨ranges, separated⟩ := s
  cases ranges with
  | nil => simp [isEmpty, mem_iff]
  | cons r rest =>
    have member : r.1 ∈ (⟨r :: rest, separated⟩ : CodeSet) := by
      rw [mem_iff, inRanges_cons]
      exact .inl ⟨Nat.le_refl _, separated.2.1⟩
    simp only [isEmpty, List.isEmpty_cons, Bool.false_eq_true, false_iff]
    exact fun none => none r.1 member

theorem size_pos {s : CodeSet} (h : s.isEmpty = false) : 1 ≤ s.size := by
  obtain ⟨ranges, separated⟩ := s
  cases ranges with
  | nil => cases h
  | cons r rest =>
    have wide := separated.2.1
    simp only [size, List.foldr_cons]
    omega

theorem two_le_size {s : CodeSet} (nonempty : s.isEmpty = false) (several : s.single? = none) :
    2 ≤ s.size := by
  obtain ⟨ranges, separated⟩ := s
  match ranges, separated with
  | [], _ => cases nonempty
  | [(low, high)], ⟨_, wide, _⟩ =>
    have apart : low ≠ high := by
      intro same
      simp [single?, same] at several
    simp only [size, List.foldr_cons, List.foldr_nil]
    omega
  | (_, _) :: (_, _) :: _, ⟨_, wide, _, wide', _⟩ =>
    simp only [size, List.foldr_cons]
    omega

theorem mem_iff_of_single? {s : CodeSet} {m n : Nat} (h : s.single? = some n) : m ∈ s ↔ m = n := by
  obtain ⟨ranges, separated⟩ := s
  match ranges, separated with
  | [], _ => cases h
  | [(low, high)], _ =>
    simp only [single?, Option.ite_none_right_eq_some, Option.some.injEq] at h
    obtain ⟨rfl, rfl⟩ := h
    simp only [mem_iff, inRanges_cons, inRanges_nil, or_false]
    omega
  | _ :: _ :: _, _ => cases h

theorem mem_of_single? {s : CodeSet} {n : Nat} (h : s.single? = some n) : n ∈ s :=
  (mem_iff_of_single? h).2 rfl

theorem isEmpty_of_size {s : CodeSet} (h : 1 ≤ s.size) : s.isEmpty = false := by
  obtain ⟨ranges, separated⟩ := s
  cases ranges with
  | nil => cases h
  | cons r rest => rfl

theorem single?_of_size {s : CodeSet} (h : 2 ≤ s.size) : s.single? = none := by
  obtain ⟨ranges, separated⟩ := s
  match ranges with
  | [] => rfl
  | [(low, high)] =>
    have apart : low ≠ high := by
      rintro rfl
      simp only [size, List.foldr_cons, List.foldr_nil] at h
      omega
    simp [single?, apart]
  | _ :: _ :: _ => rfl

/-! ## One form for one set -/

/-- The first range ends where the members stop being next to each other. -/
theorem end_le_of_inRanges_iff {low high high' : Nat} {rest rest' : List (Nat × Nat)}
    (wide : low ≤ high) (later : Separated (high + 2) rest)
    (same : ∀ n, InRanges n ((low, high) :: rest) ↔ InRanges n ((low, high') :: rest')) :
    high' ≤ high := by
  obtain less | le := Nat.lt_or_ge high high'
  · have inside : low ≤ high + 1 ∧ high + 1 ≤ high' := ⟨by omega, less⟩
    have next := (same (high + 1)).2 ((inRanges_cons _ _ _).2 (.inl inside))
    obtain here | further := (inRanges_cons _ _ _).1 next
    · omega
    · have gap := Separated.start_le later further
      omega
  · exact le

theorem eq_of_inRanges_iff {start start' : Nat} {ranges ranges' : List (Nat × Nat)}
    (h : Separated start ranges) (h' : Separated start' ranges')
    (same : ∀ n, InRanges n ranges ↔ InRanges n ranges') : ranges = ranges' := by
  induction ranges generalizing start start' ranges' with
  | nil =>
    cases ranges' with
    | nil => rfl
    | cons r rest =>
      have member := (same r.1).2 ((inRanges_cons _ _ _).2 (.inl ⟨Nat.le_refl _, h'.2.1⟩))
      exact absurd member (inRanges_nil _)
  | cons r rest ih =>
    obtain ⟨low, high⟩ := r
    cases ranges' with
    | nil =>
      have member := (same low).1 ((inRanges_cons _ _ _).2 (.inl ⟨Nat.le_refl _, h.2.1⟩))
      exact absurd member (inRanges_nil _)
    | cons r' rest' =>
      obtain ⟨low', high'⟩ := r'
      obtain ⟨_, wide, later⟩ := h
      obtain ⟨_, wide', later'⟩ := h'
      -- either list starts with the least member
      have first : low = low' := by
        have here := (same low).1 ((inRanges_cons _ _ _).2 (.inl ⟨Nat.le_refl _, wide⟩))
        have here' := (same low').2 ((inRanges_cons _ _ _).2 (.inl ⟨Nat.le_refl _, wide'⟩))
        have from_low : Separated low ((low, high) :: rest) := ⟨Nat.le_refl _, wide, later⟩
        have from_low' : Separated low' ((low', high') :: rest') := ⟨Nat.le_refl _, wide', later'⟩
        exact Nat.le_antisymm (Separated.start_le from_low here') (Separated.start_le from_low' here)
      subst first
      have last : high = high' :=
        Nat.le_antisymm (end_le_of_inRanges_iff wide' later' fun n => (same n).symm)
          (end_le_of_inRanges_iff wide later same)
      subst last
      -- what is not in the first range is in the others
      have others : rest = rest' := by
        apply ih later later'
        intro n
        have whole := same n
        rw [inRanges_cons, inRanges_cons] at whole
        constructor
        · intro member
          have gap := Separated.start_le later member
          exact (whole.1 (.inr member)).resolve_left fun inside => by omega
        · intro member
          have gap := Separated.start_le later' member
          exact (whole.2 (.inr member)).resolve_left fun inside => by omega
      rw [others]

/-- Sets with the same members are kept as the same ranges. -/
theorem eq_of_mem_iff {s t : CodeSet} (same : ∀ n, n ∈ s ↔ n ∈ t) : s = t := by
  apply ext_ranges
  apply eq_of_inRanges_iff s.separated t.separated
  intro n
  rw [← mem_iff, ← mem_iff]
  exact same n

theorem remove_of_not_mem {s : CodeSet} {n : Nat} (h : n ∉ s) : s.remove n = s := by
  apply eq_of_mem_iff
  intro m
  rw [mem_remove]
  refine ⟨And.right, fun member => ⟨?_, member⟩⟩
  rintro rfl
  exact h member

theorem ofList_toList (s : CodeSet) : ofList s.toList = s :=
  eq_of_mem_iff fun _ => mem_ofList.trans mem_toList

end EditorSettings.CodeSet
