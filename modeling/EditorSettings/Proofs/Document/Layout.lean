import EditorSettings.Proofs.Document.Malformed
import EditorSettings.Proofs.Document.Grammar
import EditorSettings.Proofs.Document.Correspondence

/-! # Layout

Lines with blanks around them, and blank lines and comments between them, are read as the lines alone, up to
the numbers of the lines.  A list of `LaidLine` tells which lines are new; `lineNumber` counts where the
others have come to stand.  Carriage returns in front of the newlines of a text are blanks like others, and
change no number.
-/

namespace EditorSettings

/-! ## Other line numbers -/

section Renumbered

variable (number : Nat → Nat)

def Source.renumbered (s : Source) : Source := { s with line := number s.line.toNat }

def Value.renumbered (v : Value) : Value := { v with source := v.source.map (Source.renumbered number) }

def ParseError.renumbered (e : ParseError) : ParseError := { e with line := e.line.map number }

def Failure.renumbered : Failure → Failure
  | .malformed e => .malformed (e.renumbered number)
  | .unreadable f path => .unreadable f path
  | .tooManyDigits e => .tooManyDigits e

/-- What a call gives, with other line numbers in the sources of the values and in the error. -/
def Reader.renumbered (x : Except Failure Section) : Except Failure Section :=
  (x.map (Section.mapValues (Value.renumbered number))).mapError (Failure.renumbered number)

end Renumbered

/-! ## Lines between lines -/

/-- A line of a file to which a layout has been given. -/
inductive LaidLine
  | added (t : Text)
  /-- A line that was there, and what was put around it. -/
  | kept (before t after : Text)

namespace LaidLine

def text : LaidLine → Text
  | added t => t
  | kept before t after => before ++ t ++ after

def old? : LaidLine → Option Text
  | added _ => none
  | kept _ t _ => some t

/-- Only blank lines and comments are put in, and only blanks are put around a line. -/
inductive Allowed : LaidLine → Prop
  | blank {w : Text} (blank : ∀ c ∈ w, Text.isBlank c) : Allowed (.added w)
  | comment {w rest : Text} {mark : Char} (blank : ∀ c ∈ w, Text.isBlank c)
      (comment : Line.isCommentMark mark) : Allowed (.added (w ++ mark :: rest))
  | kept {before t after : Text} (blankBefore : ∀ c ∈ before, Text.isBlank c)
      (blankAfter : ∀ c ∈ after, Text.isBlank c) : Allowed (.kept before t after)

def oldLines (layout : List LaidLine) : List Text := layout.filterMap old?

def newLines (layout : List LaidLine) : List Text := layout.map text

/-- The number that the layout gives to the line that had a number. -/
def lineNumber : List LaidLine → Nat → Nat
  | _, 0 => 0
  | [], n => n
  | added _ :: rest, n + 1 => lineNumber rest (n + 1) + 1
  | kept .. :: rest, n + 1 => lineNumber rest n + 1

/-- A line is counted among the lines above it, before and after. -/
theorem lineNumber_kept (above : List LaidLine) (before t after : Text) (below : List LaidLine) :
    lineNumber (above ++ .kept before t after :: below) ((oldLines above).length + 1) =
      (newLines above).length + 1 := by
  induction above with
  | nil => rw [List.nil_append, oldLines, List.filterMap_nil, List.length_nil, lineNumber, lineNumber]; rfl
  | cons x above ih =>
    cases x with
    | added u => exact congrArg (· + 1) ih
    | kept b u a => exact congrArg (· + 1) ih

theorem parse_of_added {t : Text} (allowed : (added t).Allowed) : Line.parse t = .ok .blank := by
  cases allowed with
  | blank blank =>
    rw [Line.parse, Text.trim, Text.trimStart_of_blank blank]
    rfl
  | @comment w rest mark blank comment =>
    have visible := Line.not_blank_of_mark comment
    have trimmed : Text.trim (w ++ mark :: rest) = mark :: Text.trimEnd rest := by
      rw [Text.trim, Text.trimStart_append blank, Text.trimStart_cons_of_not_blank visible]
      exact Text.trimEnd_append_cons visible [] rest
    rw [Line.parse, trimmed, Line.parseTrimmed, if_pos comment]

theorem parse_of_kept {before t after : Text} (allowed : (kept before t after).Allowed) :
    Line.parse (kept before t after).text = Line.parse t := by
  cases allowed with
  | kept blankBefore blankAfter => exact Line.parse_append blankBefore blankAfter t

theorem padded {number : Nat → Nat} {layout : List LaidLine} (allowed : ∀ x ∈ layout, x.Allowed)
    {n n' : Nat} (counted : ∀ k, number (n + (k + 1)) = n' + lineNumber layout (k + 1)) :
    Reader.Padded number n (oldLines layout) n' (newLines layout) := by
  induction layout generalizing n n' with
  | nil => exact .nil
  | cons x layout ih =>
    obtain ⟨first, others⟩ := List.forall_mem_cons.1 allowed
    cases x with
    | added t =>
      refine .blank (parse_of_added first) (ih others fun k => ?_)
      rw [counted, lineNumber, Nat.add_assoc, Nat.add_comm 1]
    | kept before t after =>
      refine .line (parse_of_kept first) ?_ (ih others fun k => ?_)
      · have place := counted 0
        rwa [lineNumber, lineNumber] at place
      · have place := counted (k + 1)
        rw [lineNumber] at place
        rw [Nat.add_assoc, Nat.add_comm 1, place, Nat.add_assoc, Nat.add_comm 1]

end LaidLine

/-! ## Carriage returns -/

namespace Text

/-- The text with every newline after a carriage return. -/
def crlf (t : Text) : Text := t.flatMap fun c => if c = '\n' then ['\r', '\n'] else [c]

theorem splitOn_crlf (t : Text) : ∃ ended last, t.splitOn '\n' = ended ++ [last] ∧
    (crlf t).splitOn '\n' = ended.map (· ++ ['\r']) ++ [last] := by
  induction t with
  | nil => exact ⟨[], [], rfl, rfl⟩
  | cons c t ih =>
    obtain ⟨ended, last, whole, cut⟩ := ih
    by_cases newline : c = '\n'
    · subst newline
      refine ⟨[] :: ended, last, ?_, ?_⟩
      · rw [List.splitOn_cons_eq_if_modifyHead, if_pos (beq_self_eq_true _), whole]
        rfl
      · change ('\r' :: '\n' :: crlf t).splitOn '\n' = _
        rw [List.splitOn_cons_eq_if_modifyHead, if_neg (by decide), List.splitOn_cons_eq_if_modifyHead,
          if_pos (beq_self_eq_true _), cut]
        rfl
    · have spelled : crlf (c :: t) = c :: crlf t := by
        rw [crlf, List.flatMap_cons, if_neg newline]
        rfl
      have other : ¬ (c == '\n') = true := mt beq_iff_eq.1 newline
      rw [spelled, List.splitOn_cons_eq_if_modifyHead, List.splitOn_cons_eq_if_modifyHead, if_neg other,
        if_neg other, whole, cut]
      cases ended with
      | nil => exact ⟨[], c :: last, rfl, rfl⟩
      | cons p ended => exact ⟨(c :: p) :: ended, last, rfl, rfl⟩

theorem lines_crlf (t : Text) : ∃ ended rest, lines t = ended ++ rest ∧
    lines (crlf t) = ended.map (· ++ ['\r']) ++ rest := by
  obtain ⟨ended, last, whole, cut⟩ := splitOn_crlf t
  by_cases empty : last = []
  · subst empty
    refine ⟨ended, [], ?_, ?_⟩
    · rw [lines, whole, List.getLast?_concat, if_pos rfl, List.dropLast_concat, List.append_nil]
    · rw [lines, cut, List.getLast?_concat, if_pos rfl, List.dropLast_concat, List.append_nil]
  · have filled : some last ≠ some [] := fun same => empty (Option.some.inj same)
    refine ⟨ended, [last], ?_, ?_⟩
    · rw [lines, whole, List.getLast?_concat, if_neg filled]
    · rw [lines, cut, List.getLast?_concat, if_neg filled]

end Text

namespace Reader

theorem Padded.carriageReturns (ended rest : List Text) (n : Nat) :
    Padded id n (ended ++ rest) n (ended.map (· ++ ['\r']) ++ rest) := by
  induction ended generalizing n with
  | nil => exact .refl n rest
  | cons t ended ih =>
    have blank : ∀ c ∈ ['\r'], Text.isBlank c := List.forall_mem_singleton.2 (by decide)
    exact .line (@Line.parse_append [] ['\r'] nofun blank t) rfl (ih (n + 1))

/-! ## Reading alike -/

/-- Both readings fail at once, or both open a file and then give the same at every call, but for what is
made of the errors and of the results. -/
def ReadAlike (error : ParseError → ParseError) (result : Except Failure Section → Except Failure Section) :
    Except ParseError Reader → Except ParseError Reader → Prop
  | .error e, .error e' => e' = error e
  | .ok r, .ok r' => r'.isRoot = r.isRoot ∧ ∀ i, r'.call i = (r.call i).map result
  | _, _ => False

namespace Transfer

variable {path path' : Option Path} {c : Transfer path path'} {r r' : Reader}

theorem Follows.call (h : c.Follows r r') (i : Nat) : r'.call i = (r.call i).map c.result := by
  induction i generalizing r r' with
  | zero =>
    cases called : r.next with
    | none =>
      rw [Reader.call, Reader.call, called, h.next_none called]
      rfl
    | some given =>
      obtain ⟨after', called', _⟩ := h.next_some called
      rw [Reader.call, Reader.call, called, called']
      rfl
  | succ i ih =>
    rw [Reader.call, Reader.call]
    cases called : r.next with
    | none =>
      rw [h.next_none called]
      exact ih h
    | some given =>
      obtain ⟨after', called', follows⟩ := h.next_some called
      rw [called']
      exact ih follows

theorem readAlike (c : Transfer path path') {lines lines' : List Text}
    (padded : Padded c.number 0 lines 0 lines') :
    ReadAlike c.error c.result (ofLines path lines) (ofLines path' lines') := by
  rw [ofLines, ofLines]
  obtain ⟨e, failed, failed'⟩ | ⟨r, r', opened, opened', follows⟩ := c.preamble_of_padded padded false
  · rw [failed, failed']
    exact rfl
  · rw [opened, opened']
    exact ⟨follows.isRoot, follows.call⟩

end Transfer

def renumbering (number : Nat → Nat) (path : Option Path) : Transfer path path where
  number := number
  value := Value.renumbered number
  error := ParseError.renumbered number
  failure := Failure.renumbered number
  value_valueAt n t := by cases path <;> rfl
  error_line _ _ := rfl
  failure_malformed _ := rfl
  failure_tooManyDigits _ := rfl

def unchanged (path : Option Path) : Transfer path path where
  number := id
  value := id
  error := id
  failure := id
  value_valueAt _ _ := rfl
  error_line _ _ := rfl
  failure_malformed _ := rfl
  failure_tooManyDigits _ := rfl

theorem result_unchanged (path : Option Path) : (unchanged path).result = id := by
  funext x
  cases x with
  | error e => rfl
  | ok s =>
    have same : s.props.mapValues id = s.props := Properties.ext_entries (List.map_id _)
    exact congrArg (fun props => Except.ok { s with props }) same

/-- Layout changes the numbers of the lines and nothing else, and carriage returns not even these. -/
theorem layout_is_irrelevant (path : Option Path) :
    (∀ layout : List LaidLine, (∀ x ∈ layout, x.Allowed) →
      ReadAlike (ParseError.renumbered (LaidLine.lineNumber layout)) (renumbered (LaidLine.lineNumber layout))
        (ofLines path (LaidLine.oldLines layout)) (ofLines path (LaidLine.newLines layout)) ∧
      ∀ above before t after below, layout = above ++ .kept before t after :: below →
        LaidLine.lineNumber layout ((LaidLine.oldLines above).length + 1) =
          (LaidLine.newLines above).length + 1) ∧
    ∀ t, ReadAlike id id (ofText path t) (ofText path (Text.crlf t)) := by
  refine ⟨fun layout allowed => ⟨?_, ?_⟩, fun t => ?_⟩
  · have counted (k : Nat) : LaidLine.lineNumber layout (0 + (k + 1)) =
        0 + LaidLine.lineNumber layout (k + 1) := by rw [Nat.zero_add, Nat.zero_add]
    exact (renumbering (LaidLine.lineNumber layout) path).readAlike (LaidLine.padded allowed counted)
  · rintro above before t after below rfl
    exact LaidLine.lineNumber_kept above before t after below
  · obtain ⟨ended, rest, here, there⟩ := Text.lines_crlf t
    have alike := (unchanged path).readAlike (Padded.carriageReturns ended rest 0)
    rwa [← here, ← there, result_unchanged] at alike

/-- A comment in the preamble, a blank line between a header and its pair, and blanks around the lines. -/
theorem layout_is_irrelevant_shifted :
    let layout : List LaidLine := [.added "; note".toList, .kept [] "root = true".toList ['\r'],
      .kept ['\t'] "[a]".toList [], .added [' '], .kept [' '] "k = v".toList [], .added "#".toList,
      .kept [] "broken".toList [' ']]
    let path : Option Path := some ⟨.relative, ["f".toList]⟩
    ∃ r, ofLines path (LaidLine.newLines layout) = .ok r ∧ r.isRoot = true ∧
      r.call 0 = some (.error (.malformed ⟨.notAPair, some 7, some ['f']⟩)) := by
  intro layout path
  have allowed : ∀ x ∈ layout, x.Allowed := by
    have single {c : Char} (blank : Text.isBlank c) : ∀ b ∈ [c], Text.isBlank b :=
      List.forall_mem_singleton.2 blank
    simp only [layout, List.forall_mem_cons]
    exact ⟨.comment (w := []) nofun rfl, .kept nofun (single rfl), .kept (single rfl) nofun,
      .blank (single rfl), .kept (single rfl) nofun, .comment (w := []) nofun rfl,
      .kept nofun (single rfl), nofun⟩
  let r : Reader := ⟨path, true, some ['a'], ["k = v", "broken"].map String.toList, 2⟩
  have opened : ofLines path (LaidLine.oldLines layout) = .ok r := by rfl
  have fails : r.call 0 = some (.error (.malformed ⟨.notAPair, some 4, some ['f']⟩)) := by
    obtain ⟨s, made⟩ : ∃ s, Section.ofPattern ['a'] = .ok s := Section.exists_ofPattern (by decide)
    simp only [r, Reader.call, Reader.next, made]
    rfl
  obtain ⟨alike, _⟩ := (layout_is_irrelevant path).1 layout allowed
  rw [opened] at alike
  cases opened' : ofLines path (LaidLine.newLines layout) with
  | error e =>
    rw [opened'] at alike
    exact alike.elim
  | ok r' =>
    rw [opened'] at alike
    exact ⟨r', rfl, alike.1, (alike.2 0).trans (congrArg (Option.map _) fails)⟩

end Reader

end EditorSettings
