import EditorSettings.Proofs.Document.Lines

/-! # Headers with comments

Where a line does not end with a bracket, its header ends at the last bracket that a comment follows.  A
comment may have brackets of its own, and then takes part in deciding where the header ends:
`header_before_comment` says when it does.
-/

namespace EditorSettings

namespace Text

theorem trimEnd_append_cons {c : Char} (visible : ¬ isBlank c) (before after : Text) :
    trimEnd (before ++ c :: after) = before ++ c :: trimEnd after := by
  have start (w : Text) : trimStart (w ++ c :: before.reverse) = trimStart w ++ c :: before.reverse := by
    induction w with
    | nil => exact trimStart_cons_of_not_blank visible _
    | cons b w ih =>
      by_cases blank : isBlank b
      · rw [List.cons_append, trimStart_cons_of_blank blank, trimStart_cons_of_blank blank, ih]
      · rw [List.cons_append, trimStart_cons_of_not_blank blank, trimStart_cons_of_not_blank blank,
          List.cons_append]
  rw [trimEnd_eq, List.reverse_append, List.reverse_cons, List.append_assoc, List.singleton_append, start,
    List.reverse_append, List.reverse_cons, List.reverse_reverse, trimEnd_eq, List.append_assoc,
    List.singleton_append]

end Text

namespace Line

theorem not_blank_of_mark {m : Char} (mark : isCommentMark m) : ¬ Text.isBlank m := by
  simp only [isCommentMark, Bool.or_eq_true, decide_eq_true_eq] at mark
  rcases mark with rfl | rfl <;> decide

theorem ne_bracket_of_mark {m : Char} (mark : isCommentMark m) : m ≠ ']' := by
  rintro rfl
  exact absurd mark (by decide)

/-- Somewhere in a text a closing bracket, and blanks, stand in front of a comment. -/
def Recloses (t : Text) : Prop :=
  ∃ before blanks mark after, t = before ++ ']' :: (blanks ++ mark :: after) ∧
    (∀ c ∈ blanks, Text.isBlank c) ∧ isCommentMark mark

/-! ## Comments -/

theorem isComment_iff {t : Text} :
    isComment t ↔ ∃ blanks mark after, t = blanks ++ mark :: after ∧ (∀ c ∈ blanks, Text.isBlank c) ∧
      isCommentMark mark ∧ '\n' ∉ after := by
  constructor
  · intro h
    obtain ⟨blanks, blank, split⟩ := Text.exists_blanks t
    rw [isComment] at h
    cases shape : Text.trimStart t with
    | nil => simp [shape] at h
    | cons mark after =>
      simp only [shape, Bool.and_eq_true, Bool.not_eq_true', List.contains_eq_mem, decide_eq_false_iff_not] at h
      exact ⟨blanks, mark, after, shape ▸ split, blank, h⟩
  · rintro ⟨blanks, mark, after, rfl, blank, isMark, free⟩
    rw [isComment, Text.trimStart_append blank,
      Text.trimStart_cons_of_not_blank (not_blank_of_mark isMark)]
    simp [isMark, free]

section Headers

variable {pattern blanks comment : Text} {mark : Char}

theorem commentedHeader_append {t : Text} (closing : ']' ∉ t) (newline : '\n' ∉ t) (rest : Text) :
    commentedHeader (t ++ rest) = (commentedHeader rest).map (t ++ ·) := by
  induction t with
  | nil => simp
  | cons c t ih =>
    rw [List.mem_cons, not_or] at closing newline
    rw [List.cons_append, commentedHeader, if_neg (Ne.symm newline.1), ih closing.2 newline.2]
    cases commentedHeader rest with
    | none => simp [Ne.symm closing.1]
    | some q => rfl

theorem commentedHeader_of_newline {t : Text} (closing : ']' ∉ t) (newline : '\n' ∈ t) (rest : Text) :
    commentedHeader (t ++ rest) = none := by
  induction t with
  | nil => cases newline
  | cons c t ih =>
    rw [List.mem_cons, not_or] at closing
    rw [List.cons_append, commentedHeader]
    split
    · rfl
    next other =>
      have later : '\n' ∈ t := (List.mem_cons.1 newline).resolve_left (Ne.symm other)
      simp [ih closing.2 later, Ne.symm closing.1]

/-- In a line, there is a commented header wherever a bracket is in front of a comment. -/
theorem commentedHeader_eq_none_iff {t : Text} (newline : '\n' ∉ t) :
    commentedHeader t = none ↔ ¬ Recloses t := by
  induction t with
  | nil => simp [commentedHeader, Recloses]
  | cons c t ih =>
    rw [List.mem_cons, not_or] at newline
    -- a bracket in front of a comment is the first character or a later one
    have first : Recloses (c :: t) ↔ (c = ']' ∧ isComment t) ∨ Recloses t := by
      constructor
      · rintro ⟨before, blanks, mark, after, split, blank, isMark⟩
        cases before with
        | nil =>
          cases split
          have free : '\n' ∉ after := fun here => newline.2 (by simp [here])
          exact .inl ⟨rfl, isComment_iff.2 ⟨blanks, mark, after, rfl, blank, isMark, free⟩⟩
        | cons d before =>
          cases split
          exact .inr ⟨before, blanks, mark, after, rfl, blank, isMark⟩
      · rintro (⟨rfl, isComment⟩ | ⟨before, blanks, mark, after, rfl, blank, isMark⟩)
        · obtain ⟨blanks, mark, after, rfl, blank, isMark, _⟩ := isComment_iff.1 isComment
          exact ⟨[], blanks, mark, after, rfl, blank, isMark⟩
        · exact ⟨c :: before, blanks, mark, after, rfl, blank, isMark⟩
    rw [commentedHeader, if_neg (Ne.symm newline.1), first, not_or, ← ih newline.2]
    cases commentedHeader t with
    | none => simp
    | some q => simp

theorem recloses_trimEnd (t : Text) : Recloses (Text.trimEnd t) ↔ Recloses t := by
  constructor
  · rintro ⟨before, blanks, mark, after, split, blank, isMark⟩
    obtain ⟨w, _, whole⟩ := Text.exists_blanks_end t
    refine ⟨before, blanks, mark, after ++ w, ?_, blank, isMark⟩
    rw [whole, split]
    simp
  · rintro ⟨before, blanks, mark, after, rfl, blank, isMark⟩
    refine ⟨before, blanks, mark, Text.trimEnd after, ?_, blank, isMark⟩
    have kept := Text.trimEnd_append_cons (not_blank_of_mark isMark) (before ++ ']' :: blanks) after
    simpa using kept

theorem commentedHeader_comment (closing : ']' ∉ pattern) (newline : '\n' ∉ pattern)
    (blank : ∀ c ∈ blanks, Text.isBlank c) (isMark : isCommentMark mark) (free : '\n' ∉ comment) :
    ∃ q, pattern <+: q ∧ commentedHeader (pattern ++ ']' :: (blanks ++ mark :: comment)) = some q ∧
      (q = pattern ↔ '\n' ∈ blanks ∨ ¬ Recloses comment) := by
  have bracket : ']' ∉ blanks := Text.not_mem_of_blank blank (by decide)
  have other : mark ≠ ']' := ne_bracket_of_mark isMark
  have comments : isComment (blanks ++ mark :: comment) :=
    isComment_iff.2 ⟨blanks, mark, comment, rfl, blank, isMark, free⟩
  have inner : commentedHeader (blanks ++ mark :: comment) = none ↔ '\n' ∈ blanks ∨ ¬ Recloses comment := by
    by_cases broken : '\n' ∈ blanks
    · simp [commentedHeader_of_newline bracket broken, broken]
    · have visible : '\n' ∉ blanks ++ [mark] := by
        simp [broken, show '\n' ≠ mark from fun same => not_blank_of_mark isMark (same ▸ by decide)]
      have apart : ']' ∉ blanks ++ [mark] := by simp [bracket, Ne.symm other]
      rw [List.append_cons, commentedHeader_append apart visible, Option.map_eq_none_iff,
        commentedHeader_eq_none_iff free]
      simp [broken]
  rw [commentedHeader_append closing newline, commentedHeader, if_neg (by decide), ← inner]
  cases commentedHeader (blanks ++ mark :: comment) with
  | none => exact ⟨pattern, List.prefix_rfl, by simp [comments], by simp⟩
  | some q => exact ⟨pattern ++ ']' :: q, List.prefix_append _ _, rfl, by simp⟩

theorem headerPattern_comment (closing : ']' ∉ pattern) (newline : '\n' ∉ pattern)
    (blank : ∀ c ∈ blanks, Text.isBlank c) (isMark : isCommentMark mark) (free : '\n' ∉ comment) :
    ∃ q, pattern <+: q ∧ headerPattern (pattern ++ ']' :: (blanks ++ mark :: comment)) = .ok q ∧
      (q = pattern ↔ comment.getLast? ≠ some ']' ∧ ('\n' ∈ blanks ∨ ¬ Recloses comment)) := by
  by_cases ends : comment.getLast? = some ']'
  · -- the line ends with a bracket, and everything before it is the header
    obtain ⟨shorter, rfl⟩ := List.getLast?_eq_some_iff.1 ends
    refine ⟨pattern ++ ']' :: (blanks ++ mark :: shorter), List.prefix_append _ _, ?_, by simp⟩
    have whole := headerPattern_append (pattern ++ ']' :: (blanks ++ mark :: shorter))
    simpa using whole
  · have last : (pattern ++ ']' :: (blanks ++ mark :: comment)).getLast? ≠ some ']' := by
      have regroup : pattern ++ ']' :: (blanks ++ mark :: comment) =
          (pattern ++ ']' :: blanks) ++ mark :: comment := by simp
      rw [regroup, List.getLast?_append, List.getLast?_cons, Option.some_or]
      cases final : comment.getLast? with
      | none => simpa using ne_bracket_of_mark isMark
      | some c => rwa [Option.getD_some, ← final]
    obtain ⟨q, starts, found, same⟩ := commentedHeader_comment closing newline blank isMark free
    refine ⟨q, starts, ?_, by simp [ends, same]⟩
    rw [headerPattern, if_neg last, found]

end Headers

/-- A header with a comment is read as a header that starts with its pattern.  It is the pattern unless
the comment ends with a bracket or has one in front of another comment. -/
theorem header_before_comment {pattern blanks comment : Text} {mark : Char} (ne : pattern ≠ [])
    (closing : ']' ∉ pattern) (newline : '\n' ∉ pattern) (blank : ∀ c ∈ blanks, Text.isBlank c)
    (isMark : isCommentMark mark) (free : '\n' ∉ comment) :
    ∃ q, pattern <+: q ∧ parse ('[' :: (pattern ++ ']' :: (blanks ++ mark :: comment))) = .ok (.header q) ∧
      (q = pattern ↔
        (Text.trimEnd comment).getLast? ≠ some ']' ∧ ('\n' ∈ blanks ∨ ¬ Recloses comment)) := by
  have trimmed : Text.trim ('[' :: (pattern ++ ']' :: (blanks ++ mark :: comment))) =
      '[' :: (pattern ++ ']' :: (blanks ++ mark :: Text.trimEnd comment)) := by
    have ends := Text.trimEnd_append_cons (not_blank_of_mark isMark)
      ('[' :: (pattern ++ ']' :: blanks)) comment
    rw [Text.trim, Text.trimStart_cons_of_not_blank (by decide)]
    simpa using ends
  have free' : '\n' ∉ Text.trimEnd comment := by
    intro member
    rw [Text.trimEnd, List.mem_reverse] at member
    exact free (List.mem_reverse.1 ((List.dropWhile_sublist _).subset member))
  obtain ⟨q, starts, read, same⟩ := headerPattern_comment closing newline blank isMark free'
  refine ⟨q, starts, ?_, by rw [same, recloses_trimEnd]⟩
  have filled : q ≠ [] := fun empty => ne (List.prefix_nil.1 (empty ▸ starts))
  have header : parseHeader (pattern ++ ']' :: (blanks ++ mark :: Text.trimEnd comment)) =
      .ok (.header q) := by
    rw [parseHeader, read]
    simp [filled]
  rw [parse, trimmed]
  exact header

/-- The comment `; [a] b` leaves the header alone. -/
theorem header_before_comment_bracketsInside :
    ¬ Recloses " [a] b".toList ∧
      parse "[*.py] ; [a] b".toList = .ok (.header "*.py".toList) := by
  have once : ¬ Recloses " [a] b".toList := (commentedHeader_eq_none_iff (by decide)).1 (by decide)
  have ends : (Text.trimEnd " [a] b".toList).getLast? ≠ some ']' := by decide
  have blank : ∀ c ∈ [' '], Text.isBlank c := List.forall_mem_singleton.2 (by decide)
  obtain ⟨q, _, read, same⟩ := header_before_comment (show "*.py".toList ≠ [] by decide)
    (show ']' ∉ "*.py".toList by decide) (by decide) blank
    (show isCommentMark ';' by decide) (show '\n' ∉ " [a] b".toList by decide)
  exact ⟨once, same.2 ⟨ends, .inr once⟩ ▸ read⟩

/-- The comment `# see [docs]` becomes a part of the header. -/
theorem comment_joins_header :
    parse "[*.py] # see [docs]".toList = .ok (.header "*.py] # see [docs".toList) ∧
      parse "[*.py] # see [docs]".toList ≠ .ok (.header "*.py".toList) := by
  decide

end Line

end EditorSettings
