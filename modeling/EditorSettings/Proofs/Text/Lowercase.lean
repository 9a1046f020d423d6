import Mathlib.Data.List.Basic
import EditorSettings.Proofs.Document.Lines
import EditorSettings.Proofs.Text.Utf8
import EditorSettings.Text.Lowercase

/-! # The lower case of a text

Lower case is reached in one step (`lower_lower`).  Each character of a text becomes one or two others, and
one that changes becomes a letter: no blank, and behind all the marks that structure a line.  So lower case
neither brings marks and blanks into a text nor changes whether it starts or ends with one.
-/

namespace EditorSettings.Text

/-! ## Runs -/

section Runs

variable {n : Nat} {run other : Nat × Nat × Nat × Int} {runs : List (Nat × Nat × Nat × Int)}

/-- Whether a run moves a code point. -/
def Moves (run : Nat × Nat × Nat × Int) (n : Nat) : Prop :=
  run.1 ≤ n ∧ n ≤ run.2.1 ∧ (n - run.1) % run.2.2.1 = 0

def lowest (run : Nat × Nat × Nat × Int) : Nat := (run.1 + run.2.2.2).toNat

def highest (run : Nat × Nat × Nat × Int) : Nat := (run.2.1 + run.2.2.2).toNat

/-- Whether no code point that a run leads to is moved by another run.  The code points of the two are
apart, or those of one lie in the gaps of the other. -/
def apart (run other : Nat × Nat × Nat × Int) : Bool :=
  Nat.blt (highest run) other.1 || Nat.blt other.2.1 (lowest run) ||
    (Nat.ble other.1 (lowest run) && (lowest run - other.1) % 2 == 1 && other.2.2.1 == 2 &&
      (run.1 == run.2.1 || run.2.2.1 == 2))

theorem lowerIn_cases (n : Nat) (runs : List (Nat × Nat × Nat × Int)) :
    lowerIn n runs = n ∨ ∃ run ∈ runs, Moves run n ∧ lowerIn n runs = (n + run.2.2.2).toNat := by
  fun_induction lowerIn n runs with
  | case1 => exact .inl rfl
  | case2 => exact .inl rfl
  | case3 first last stride shift rest low high divides =>
    exact .inr ⟨_, List.mem_cons_self, ⟨Nat.le_of_not_lt low, high, divides⟩, rfl⟩
  | case4 => exact .inl rfl
  | case5 first last stride shift rest low high ih =>
    refine ih.imp_right ?_
    rintro ⟨run, member, moves, image⟩
    exact ⟨run, List.mem_cons_of_mem _ member, moves, image⟩

theorem not_moves_of_apart (moves : Moves run n) (low : 0 < lowest run) (h : apart run other) :
    ¬ Moves other (n + run.2.2.2).toNat := by
  obtain ⟨first, last, stride, shift⟩ := run
  obtain ⟨first', last', stride', shift'⟩ := other
  simp only [apart, Moves, lowest, highest, Bool.or_eq_true, Bool.and_eq_true, Nat.blt_eq, Nat.ble_eq,
    beq_iff_eq] at *
  rintro ⟨above, below, divides⟩
  obtain (far | far) | ⟨⟨⟨_, odd⟩, rfl⟩, rfl | rfl⟩ := h <;> omega

theorem lowest_le (moves : Moves run n) (low : 0 < lowest run) :
    lowest run ≤ (n + run.2.2.2).toNat ∧ (n + run.2.2.2).toNat ≤ highest run := by
  simp only [Moves, lowest, highest] at *
  omega

theorem runs_apart : (lowerRuns.all fun run => lowerRuns.all (apart run)) = true := by
  decide +kernel

/-- Where the runs lead, there are neither blanks nor the capital I with a dot. -/
theorem runs_to_letters : ∀ run ∈ lowerRuns, 0x61 ≤ lowest run ∧
    (highest run < 0xD800 ∨ 0xDFFF < lowest run ∧ highest run < 0x110000) ∧
    ∀ range ∈ (0x130, 0x130) :: blankRanges, highest run < range.1 ∨ range.2 < lowest run := by
  decide +kernel

/-- A code point that is moved comes to a letter that stays. -/
theorem lowerIn_of_moves (member : run ∈ lowerRuns) (moves : Moves run n) :
    lowerIn (n + run.2.2.2).toNat lowerRuns = (n + run.2.2.2).toNat := by
  obtain same | ⟨other, member', moves', _⟩ := lowerIn_cases (n + run.2.2.2).toNat lowerRuns
  · exact same
  · have apart := List.all_eq_true.1 (List.all_eq_true.1 runs_apart run member) other member'
    have low := (runs_to_letters run member).1
    exact absurd moves' (not_moves_of_apart moves (by omega) apart)

end Runs

/-! ## Characters -/

/-- A character that lower case leaves alone, wherever it stands. -/
structure IsSmall (c : Char) : Prop where
  same : lowerChar c = c
  dotted : c ≠ 'İ'

/-- A character that neither is blank nor has a meaning in a line. -/
structure IsLetter (c : Char) : Prop where
  behind : 'a' ≤ c
  visible : ¬ isBlank c

theorem IsSmall.sigma {c : Char} (h : IsSmall c) : c ≠ 'Σ' := by
  rintro rfl
  exact absurd h.same (by decide)

theorem inRanges_eq_false {n : Nat} {ranges : List (Nat × Nat)}
    (h : ∀ range ∈ ranges, n < range.1 ∨ range.2 < n) : inRanges n ranges = false := by
  induction ranges with
  | nil => rfl
  | cons range rest ih =>
    obtain ⟨here, others⟩ := List.forall_mem_cons.1 h
    rw [inRanges, ih others]
    simp only [Bool.or_false, Bool.and_eq_false_iff, decide_eq_false_iff_not]
    omega

theorem lowerChar_cases (c : Char) :
    lowerChar c = c ∨ IsSmall (lowerChar c) ∧ IsLetter (lowerChar c) := by
  obtain same | ⟨run, member, moves, image⟩ := lowerIn_cases c.toNat lowerRuns
  · left
    rw [lowerChar, same, Char.ofNat_toNat]
  · right
    obtain ⟨low, valid, clear⟩ := runs_to_letters run member
    have within := lowest_le moves (by omega)
    have stays := lowerIn_of_moves member moves
    rw [← image] at within stays
    have code : (lowerChar c).toNat = lowerIn c.toNat lowerRuns :=
      Utf8.toNat_ofNat (by simp only [Nat.isValidChar]; omega)
    have outside : ∀ range ∈ (0x130, 0x130) :: blankRanges,
        (lowerChar c).toNat < range.1 ∨ range.2 < (lowerChar c).toNat := by
      intro range inside
      have := clear range inside
      omega
    refine ⟨⟨?_, ?_⟩, ?_, ?_⟩
    · rw [lowerChar, code, stays, lowerChar]
    · intro dotted
      have := outside _ List.mem_cons_self
      rw [dotted] at this
      exact absurd this (by decide)
    · have behind : 'a'.toNat ≤ (lowerChar c).toNat := Nat.le_trans low (code ▸ within.1)
      exact behind
    · rw [isBlank, inRanges_eq_false fun range inside => outside range (List.mem_cons_of_mem _ inside)]
      exact Bool.false_ne_true

/-! ## Texts -/

section Texts

variable {before t : Text} {d : Char}

theorem exists_lowerAfter_cons (before : Text) (c : Char) (rest : Text) :
    ∃ image, lowerAfter before (c :: rest) = image ++ lowerAfter (c :: before) rest ∧ image ≠ [] ∧
      ∀ d ∈ image, IsSmall d ∧ (d = c ∨ IsLetter d) := by
  refine ⟨_, rfl, ?_⟩
  split
  · refine ⟨List.cons_ne_nil _ _, List.forall_mem_singleton.2 ?_⟩
    split
    · exact ⟨⟨by decide, by decide⟩, .inr ⟨by decide, by decide⟩⟩
    · exact ⟨⟨by decide, by decide⟩, .inr ⟨by decide, by decide⟩⟩
  split
  · refine ⟨List.cons_ne_nil _ _, List.forall_mem_cons.2 ⟨?_, List.forall_mem_singleton.2 ?_⟩⟩
    · exact ⟨⟨by decide, by decide⟩, .inr ⟨by decide, by decide⟩⟩
    · exact ⟨⟨by decide, by decide⟩, .inr ⟨by decide, by decide⟩⟩
  next dotted =>
    refine ⟨List.cons_ne_nil _ _, List.forall_mem_singleton.2 ?_⟩
    obtain same | ⟨small, letter⟩ := lowerChar_cases c
    · exact ⟨⟨congrArg lowerChar same, by rwa [same]⟩, .inl same⟩
    · exact ⟨small, .inr letter⟩

theorem mem_lowerAfter (h : d ∈ lowerAfter before t) : IsSmall d ∧ (d ∈ t ∨ IsLetter d) := by
  induction t generalizing before with
  | nil => cases h
  | cons c rest ih =>
    obtain ⟨image, split, _, each⟩ := exists_lowerAfter_cons before c rest
    rw [split] at h
    rcases List.mem_append.1 h with here | later
    · obtain ⟨small, same | letter⟩ := each d here
      · exact ⟨small, .inl (same ▸ List.mem_cons_self)⟩
      · exact ⟨small, .inr letter⟩
    · exact (ih later).imp_right (Or.imp_left (List.mem_cons_of_mem c))

theorem lowerAfter_ne_nil (before : Text) (ne : t ≠ []) : lowerAfter before t ≠ [] := by
  obtain ⟨c, rest, rfl⟩ := List.exists_cons_of_ne_nil ne
  obtain ⟨image, split, filled, _⟩ := exists_lowerAfter_cons before c rest
  rw [split]
  simp [filled]

theorem head?_lowerAfter (h : d ∈ (lowerAfter before t).head?) : d ∈ t.head? ∨ IsLetter d := by
  cases t with
  | nil => cases h
  | cons c rest =>
    obtain ⟨image, split, filled, each⟩ := exists_lowerAfter_cons before c rest
    rw [split, List.head?_append_of_ne_nil _ filled] at h
    obtain ⟨_, rfl | letter⟩ := each d (List.mem_of_mem_head? h)
    · exact .inl rfl
    · exact .inr letter

theorem getLast?_lowerAfter (h : d ∈ (lowerAfter before t).getLast?) : d ∈ t.getLast? ∨ IsLetter d := by
  induction t generalizing before with
  | nil => cases h
  | cons c rest ih =>
    obtain ⟨image, split, filled, each⟩ := exists_lowerAfter_cons before c rest
    rw [split] at h
    cases rest with
    | nil =>
      rw [lowerAfter, List.append_nil] at h
      obtain ⟨_, rfl | letter⟩ := each d (List.mem_of_mem_getLast? h)
      · exact .inl rfl
      · exact .inr letter
    | cons c' rest =>
      rw [List.getLast?_append_of_ne_nil _ (lowerAfter_ne_nil _ (List.cons_ne_nil c' rest))] at h
      rw [List.getLast?_cons_cons]
      exact ih h

theorem lowerAfter_of_ascii (before : Text) (ascii : ∀ c ∈ t, c.toNat < 0x80) :
    lowerAfter before t = t.map lowerChar := by
  induction t generalizing before with
  | nil => rfl
  | cons c rest ih =>
    obtain ⟨here, others⟩ := List.forall_mem_cons.1 ascii
    have sigma : c ≠ 'Σ' := by
      rintro rfl
      exact absurd here (by decide)
    have dotted : c ≠ 'İ' := by
      rintro rfl
      exact absurd here (by decide)
    rw [lowerAfter, if_neg sigma, if_neg dotted, ih _ others]
    rfl

theorem lowerAfter_of_small (before : Text) (small : ∀ c ∈ t, IsSmall c) : lowerAfter before t = t := by
  induction t generalizing before with
  | nil => rfl
  | cons c rest ih =>
    obtain ⟨here, others⟩ := List.forall_mem_cons.1 small
    rw [lowerAfter, if_neg here.sigma, if_neg here.dotted, here.same, ih _ others]
    rfl

@[simp] theorem lower_lower (t : Text) : lower (lower t) = lower t :=
  lowerAfter_of_small [] fun _ member => (mem_lowerAfter member).1

@[simp] theorem lower_eq_nil_iff : lower t = [] ↔ t = [] := by
  constructor
  · intro empty
    by_contra ne
    exact lowerAfter_ne_nil [] ne empty
  · rintro rfl
    rfl

theorem not_mem_lower (mark : d < 'a') (h : d ∉ t) : d ∉ lower t := by
  intro member
  rcases (mem_lowerAfter member).2 with there | letter
  · exact h there
  · exact absurd mark (Char.not_lt.2 letter.behind)

theorem Trimmed.lower (h : Trimmed t) : Trimmed (lower t) where
  first d member := (head?_lowerAfter member).elim (h.first d) IsLetter.visible
  last d member := (getLast?_lowerAfter member).elim (h.last d) IsLetter.visible

end Texts

end EditorSettings.Text

namespace EditorSettings.Line

theorem IsValue.lower {t : Text} (h : IsValue t) : IsValue (Text.lower t) where
  ne := by simp [h.ne]
  trimmed := h.trimmed.lower

theorem IsKey.lower {t : Text} (h : IsKey t) : IsKey (Text.lower t) where
  ne := by simp [h.ne]
  trimmed := h.trimmed.lower
  equals := Text.not_mem_lower (by decide) h.equals
  start d member := by
    rcases Text.head?_lowerAfter member with there | letter
    · exact h.start d there
    · have early {mark : Char} (h : mark < 'a') : d ≠ mark := by
        rintro rfl
        exact absurd h (Char.not_lt.2 letter.behind)
      exact ⟨early (by decide), by simp [isCommentMark, early (show '#' < 'a' by decide),
        early (show ';' < 'a' by decide)]⟩

end EditorSettings.Line
