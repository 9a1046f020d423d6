import Mathlib.Data.List.TakeWhile
import EditorSettings.Line

/-! # Lines that are written

A key and a value can be read back from a line whatever blanks stand around them (`parse_pair`), and so
can the pattern of a header (`parse_header`), which may hold any text.  Lines without newlines can be
read back from a text in which a newline ends each (`lines_ended`).  Each pair that is read from a line is
one that can be written (`isPair_of_parse`).
-/

namespace EditorSettings

namespace Text

structure Trimmed (t : Text) : Prop where
  first : ∀ c ∈ t.head?, ¬ isBlank c
  last : ∀ c ∈ t.getLast?, ¬ isBlank c

instance (t : Text) : Decidable (Trimmed t) :=
  decidable_of_iff (t.head?.all (!isBlank ·) ∧ t.getLast?.all (!isBlank ·))
    ⟨fun h => ⟨by simpa [Option.all_eq_true] using h.1, by simpa [Option.all_eq_true] using h.2⟩,
      fun h => ⟨by simpa [Option.all_eq_true] using h.first, by simpa [Option.all_eq_true] using h.last⟩⟩

theorem Trimmed.trimStart {t : Text} (h : Trimmed t) : trimStart t = t := trimStart_eq_self h.first

theorem Trimmed.trimEnd {t : Text} (h : Trimmed t) : trimEnd t = t := trimEnd_eq_self h.last

theorem Trimmed.trim {t : Text} (h : Trimmed t) : trim t = t := by
  rw [Text.trim, h.trimStart, h.trimEnd]

theorem trimmed_append {left right : Text} (neLeft : left ≠ []) (neRight : right ≠ [])
    (first : Trimmed left) (last : Trimmed right) (middle : Text) :
    Trimmed (left ++ middle ++ right) where
  first := by
    rw [List.append_assoc, List.head?_append, List.head?_eq_some_head neLeft, Option.some_or,
      ← List.head?_eq_some_head]
    exact first.first
  last := by
    rw [List.getLast?_append, List.getLast?_eq_some_getLast neRight, Option.some_or,
      ← List.getLast?_eq_some_getLast]
    exact last.last

theorem exists_blanks (t : Text) : ∃ w, (∀ c ∈ w, isBlank c) ∧ t = w ++ trimStart t :=
  ⟨t.takeWhile isBlank, fun _ => List.mem_takeWhile_imp, List.takeWhile_append_dropWhile.symm⟩

theorem exists_blanks_end (t : Text) : ∃ w, (∀ c ∈ w, isBlank c) ∧ t = trimEnd t ++ w := by
  obtain ⟨w, blank, split⟩ := exists_blanks t.reverse
  refine ⟨w.reverse, fun c member => blank c (List.mem_reverse.1 member), ?_⟩
  rw [trimEnd_eq, ← List.reverse_append, ← split, List.reverse_reverse]

theorem trimStart_of_blank {w : Text} (blank : ∀ c ∈ w, isBlank c) : trimStart w = [] := by
  rw [← List.append_nil w, trimStart_append blank]
  rfl

theorem trim_append {before after : Text} (blankBefore : ∀ c ∈ before, isBlank c)
    (blankAfter : ∀ c ∈ after, isBlank c) (t : Text) :
    trim (before ++ t ++ after) = trim t := by
  obtain ⟨w, blank, start⟩ := exists_blanks t
  rw [trim, trim, List.append_assoc, trimStart_append blankBefore]
  cases shape : trimStart t with
  | nil =>
    rw [shape, List.append_nil] at start
    rw [start, trimStart_append blank, trimStart_of_blank blankAfter]
  | cons c rest =>
    have visible : ¬ isBlank c := not_isBlank_head_trimStart (by rw [shape]; rfl)
    rw [shape] at start
    rw [start, List.append_assoc, trimStart_append blank, List.cons_append,
      trimStart_cons_of_not_blank visible, ← List.cons_append, trimEnd_append blankAfter]

theorem trimStart_isSuffix (t : Text) : trimStart t <:+ t := List.dropWhile_suffix _

theorem trimEnd_isPrefix (t : Text) : trimEnd t <+: t := by
  rw [trimEnd_eq, ← List.reverse_suffix, List.reverse_reverse]
  exact trimStart_isSuffix t.reverse

theorem not_isBlank_last_trimEnd {t : Text} {c : Char} (h : c ∈ (trimEnd t).getLast?) : ¬ isBlank c := by
  rw [trimEnd_eq, List.getLast?_reverse] at h
  exact not_isBlank_head_trimStart h

theorem head?_of_isPrefix {t u : Text} {c : Char} (h : t <+: u) (first : c ∈ t.head?) : c ∈ u.head? := by
  obtain ⟨more, rfl⟩ := h
  rw [List.head?_append, Option.mem_def.1 first]
  rfl

theorem getLast?_of_isSuffix {t u : Text} {c : Char} (h : t <:+ u) (last : c ∈ t.getLast?) :
    c ∈ u.getLast? := by
  obtain ⟨more, rfl⟩ := h
  rw [List.getLast?_append, Option.mem_def.1 last]
  rfl

theorem trimmed_trim (t : Text) : Trimmed (trim t) where
  first _ first := not_isBlank_head_trimStart (head?_of_isPrefix (trimEnd_isPrefix _) first)
  last _ := not_isBlank_last_trimEnd

theorem trim_subset (t : Text) : trim t ⊆ t :=
  List.Subset.trans (trimEnd_isPrefix _).subset (trimStart_isSuffix t).subset

theorem not_mem_of_blank {c : Char} {w : Text} (h : ∀ b ∈ w, isBlank b) (visible : ¬ isBlank c) :
    c ∉ w :=
  fun member => visible (h c member)

theorem lines_ended {ts : List Text} (free : ∀ t ∈ ts, '\n' ∉ t) :
    lines (ts.flatMap (· ++ ['\n'])) = ts := by
  have cut : (ts.flatMap (· ++ ['\n'])).splitOn '\n' = ts ++ [[]] := by
    induction ts with
    | nil => rfl
    | cons t ts ih =>
      obtain ⟨first, others⟩ := List.forall_mem_cons.1 free
      rw [List.flatMap_cons, List.append_assoc, List.singleton_append,
        List.splitOn_append_cons_self_of_not_mem first, ih others]
      rfl
  rw [lines, cut, List.getLast?_concat, if_pos rfl, List.dropLast_concat]

end Text

namespace Line

structure IsKey (t : Text) : Prop where
  ne : t ≠ []
  trimmed : Text.Trimmed t
  equals : '=' ∉ t
  start : ∀ c ∈ t.head?, c ≠ '[' ∧ ¬ isCommentMark c

structure IsValue (t : Text) : Prop where
  ne : t ≠ []
  trimmed : Text.Trimmed t

instance (t : Text) : Decidable (IsKey t) :=
  decidable_of_iff
    (t ≠ [] ∧ Text.Trimmed t ∧ '=' ∉ t ∧ t.head?.all fun c => c ≠ '[' && !isCommentMark c)
    ⟨fun h => ⟨h.1, h.2.1, h.2.2.1, by simpa [Option.all_eq_true] using h.2.2.2⟩,
      fun h => ⟨h.ne, h.trimmed, h.equals, by simpa [Option.all_eq_true] using h.start⟩⟩

instance (t : Text) : Decidable (IsValue t) :=
  decidable_of_iff (t ≠ [] ∧ Text.Trimmed t) ⟨fun h => ⟨h.1, h.2⟩, fun h => ⟨h.ne, h.trimmed⟩⟩

section Blanks

variable {w₁ w₂ w₃ w₄ : Text}

theorem parse_pair {key value : Text} (isKey : IsKey key) (isValue : IsValue value)
    (h₁ : ∀ c ∈ w₁, Text.isBlank c) (h₂ : ∀ c ∈ w₂, Text.isBlank c)
    (h₃ : ∀ c ∈ w₃, Text.isBlank c) (h₄ : ∀ c ∈ w₄, Text.isBlank c) :
    parse (w₁ ++ (key ++ w₂ ++ '=' :: (w₃ ++ value)) ++ w₄) = .ok (.pair key value) := by
  have trimmed : Text.Trimmed (key ++ w₂ ++ '=' :: (w₃ ++ value)) := by
    have ends := Text.trimmed_append isKey.ne isValue.ne isKey.trimmed isValue.trimmed (w₂ ++ '=' :: w₃)
    simpa using ends
  have equals : '=' ∉ key ++ w₂ := by
    rw [List.mem_append, not_or]
    exact ⟨isKey.equals, Text.not_mem_of_blank h₂ (by decide)⟩
  have left : Text.trimEnd (key ++ w₂) = key := by
    rw [Text.trimEnd_append h₂, isKey.trimmed.trimEnd]
  have right : Text.trimStart (w₃ ++ value) = value := by
    rw [Text.trimStart_append h₃, isValue.trimmed.trimStart]
  have cut : parsePair (key ++ w₂ ++ '=' :: (w₃ ++ value)) = .ok (.pair key value) := by
    rw [parsePair_append equals, left, right]
    simp [isKey.ne, isValue.ne]
  rw [parse, Text.trim_append h₁ h₄, trimmed.trim]
  obtain ⟨c, rest, shape⟩ := List.exists_cons_of_ne_nil isKey.ne
  obtain ⟨bracket, mark⟩ := isKey.start c (by rw [shape]; rfl)
  rw [shape] at cut ⊢
  exact (if_neg mark).trans ((if_neg bracket).trans cut)

theorem parse_header {pattern : Text} (ne : pattern ≠ []) (h₁ : ∀ c ∈ w₁, Text.isBlank c)
    (h₂ : ∀ c ∈ w₂, Text.isBlank c) :
    parse (w₁ ++ ('[' :: (pattern ++ [']'])) ++ w₂) = .ok (.header pattern) := by
  have bracket {c : Char} (visible : ¬ Text.isBlank c) : Text.Trimmed [c] := by
    constructor <;> simpa using visible
  have trimmed : Text.Trimmed ('[' :: (pattern ++ [']'])) := by
    have ends := Text.trimmed_append (List.cons_ne_nil '[' []) (List.cons_ne_nil ']' [])
      (bracket (by decide)) (bracket (by decide)) pattern
    simpa using ends
  rw [parse, Text.trim_append h₁ h₂, trimmed.trim]
  have read : parseHeader (pattern ++ [']']) = .ok (.header pattern) := by
    rw [parseHeader, headerPattern_append]
    simp [ne]
  exact read

end Blanks

theorem isPair_of_parsePair {t key value : Text} (trimmed : Text.Trimmed t)
    (start : ∀ c ∈ t.head?, c ≠ '[' ∧ ¬ isCommentMark c) (h : parsePair t = .ok (.pair key value)) :
    IsKey key ∧ IsValue value ∧ key ⊆ t ∧ value ⊆ t := by
  rw [parsePair] at h
  split at h
  · cases h
  next equals rest cut =>
    dsimp only at h
    split at h
    · cases h
    next filled =>
      cases h
      simp only [Bool.or_eq_true, List.isEmpty_iff, not_or] at filled
      have split : t.takeWhile (· ≠ '=') ++ equals :: rest = t := by
        rw [← cut]
        exact List.takeWhile_append_dropWhile
      have left : Text.trimEnd (t.takeWhile (· ≠ '=')) <+: t :=
        (Text.trimEnd_isPrefix _).trans (List.takeWhile_prefix _)
      have right : Text.trimStart rest <:+ t :=
        (Text.trimStart_isSuffix rest).trans ⟨_, (List.append_cons ..).symm.trans split⟩
      refine ⟨⟨filled.1, ⟨fun c first => ?_, fun c => Text.not_isBlank_last_trimEnd⟩, fun member => ?_,
        fun c first => ?_⟩, ⟨filled.2, fun c => Text.not_isBlank_head_trimStart, fun c last => ?_⟩,
        left.subset, right.subset⟩
      · exact trimmed.first c (Text.head?_of_isPrefix left first)
      · have other := List.all_eq_true.1 List.all_takeWhile _ ((Text.trimEnd_isPrefix _).subset member)
        simp at other
      · exact start c (Text.head?_of_isPrefix left first)
      · exact trimmed.last c (Text.getLast?_of_isSuffix right last)

theorem parseHeader_ne_pair {t key value : Text} : parseHeader t ≠ .ok (.pair key value) := by
  intro h
  rw [parseHeader] at h
  split at h
  · cases h
  · split at h <;> cases h

theorem parsePair_ne_header {t pattern : Text} : parsePair t ≠ .ok (.header pattern) := by
  intro h
  rw [parsePair] at h
  split at h
  · cases h
  · dsimp only at h
    split at h <;> cases h

/-- The first character that is not blank decides what a line is read as. -/
theorem parse_cases (t : Text) : parse t = .ok .blank ∨
    (∃ rest, Text.trim t = '[' :: rest ∧ parse t = parseHeader rest) ∨
    (∀ c ∈ (Text.trim t).head?, c ≠ '[' ∧ ¬ isCommentMark c) ∧ parse t = parsePair (Text.trim t) := by
  rw [parse]
  cases Text.trim t with
  | nil => exact .inl rfl
  | cons c rest =>
    rw [parseTrimmed]
    split
    · exact .inl rfl
    next mark =>
      split
      next bracket => exact .inr (.inl ⟨rest, bracket ▸ rfl, rfl⟩)
      next other => exact .inr (.inr ⟨fun d first => by cases first; exact ⟨other, mark⟩, rfl⟩)

/-- A pair that has been read could be written. -/
theorem isPair_of_parse {t key value : Text} (h : parse t = .ok (.pair key value)) :
    IsKey key ∧ IsValue value ∧ key ⊆ t ∧ value ⊆ t := by
  have inside := Text.trim_subset t
  obtain blank | ⟨rest, _, header⟩ | ⟨start, pair⟩ := parse_cases t
  · cases blank.symm.trans h
  · exact absurd (header.symm.trans h) parseHeader_ne_pair
  · obtain ⟨isKey, isValue, left, right⟩ :=
      isPair_of_parsePair (Text.trimmed_trim t) start (pair.symm.trans h)
    exact ⟨isKey, isValue, List.Subset.trans left inside, List.Subset.trans right inside⟩

end Line

end EditorSettings
