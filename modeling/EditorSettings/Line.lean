import EditorSettings.Text.Blank
import EditorSettings.Error

/-!
# Lines of a settings file

A line is blank, a section header or a pair of a key and a value, once the blanks at its ends
are dropped.  A line whose first character is `;` or `#` is a comment, which is as good as blank.

* `Line.parse` classifies a line or says what is wrong with it.
* A header is what stands between `[` and the last `]` of the line, or, if the line does not end
  in `]`, the last `]` that is followed by a comment (`commentedHeader`).
* A pair is cut at its first `=` (`parsePair_append`).
-/

namespace EditorSettings

inductive Line
  | blank
  /-- A section starts whose pattern is given. -/
  | header (pattern : Text)
  | pair (key value : Text)
  deriving DecidableEq, Repr

namespace Line

def isCommentMark (c : Char) : Bool := c = '#' || c = ';'

/-- Whether a text is blanks and then a comment that runs to its end. -/
def isComment (t : Text) : Bool :=
  match Text.trimStart t with
  | [] => false
  | mark :: rest => isCommentMark mark && !rest.contains '\n'

/-- The text before the last bracket that is followed by a comment only. -/
def commentedHeader : Text → Option Text
  | [] => none
  | c :: rest =>
    if c = '\n' then none
    else
      match commentedHeader rest with
      | some pattern => some (c :: pattern)
      | none => if c = ']' && isComment rest then some [] else none

def headerPattern (t : Text) : Except Malformation Text :=
  if t.getLast? = some ']' then .ok t.dropLast
  else
    match commentedHeader t with
    | none => .error .unterminatedHeader
    | some pattern => .ok pattern

def parseHeader (t : Text) : Except Malformation Line :=
  match headerPattern t with
  | .error e => .error e
  | .ok pattern => if pattern.isEmpty then .error .emptyHeader else .ok (.header pattern)

def parsePair (t : Text) : Except Malformation Line :=
  match t.dropWhile (· ≠ '=') with
  | [] => .error .notAPair
  | _ :: rest =>
    let key := Text.trimEnd (t.takeWhile (· ≠ '='))
    let value := Text.trimStart rest
    if key.isEmpty || value.isEmpty then .error .missingKeyOrValue else .ok (.pair key value)

/-- Read a line without blanks at its ends. -/
def parseTrimmed : Text → Except Malformation Line
  | [] => .ok .blank
  | c :: rest =>
    if isCommentMark c then .ok .blank
    else if c = '[' then parseHeader rest
    else parsePair (c :: rest)

def parse (t : Text) : Except Malformation Line := parseTrimmed (Text.trim t)

def parseAt (path : Option Text) (number : Nat) (t : Text) : Except ParseError Line :=
  match parse t with
  | .error fault => .error ⟨fault, some number, path⟩
  | .ok line => .ok line

/-! ## What stands where in a line -/

/-- A closing bracket at the end closes the header. -/
theorem headerPattern_append (pattern : Text) :
    headerPattern (pattern ++ [']']) = .ok pattern := by
  simp [headerPattern]

theorem all_ne_of_not_mem {mark : Char} {t : Text} (h : mark ∉ t) :
    ∀ c ∈ t, decide (c ≠ mark) = true := by
  intro c hc
  rw [decide_eq_true_eq]
  exact fun e => h (e ▸ hc)

/-- A pair is cut at its first `=`. -/
theorem parsePair_append {key : Text} (h : '=' ∉ key) (value : Text) :
    parsePair (key ++ '=' :: value) =
      if (Text.trimEnd key).isEmpty || (Text.trimStart value).isEmpty then
        .error .missingKeyOrValue
      else .ok (.pair (Text.trimEnd key) (Text.trimStart value)) := by
  have inside := all_ne_of_not_mem h
  rw [parsePair, List.dropWhile_append_of_pos inside, List.takeWhile_append_of_pos inside]
  simp

end Line

end EditorSettings
