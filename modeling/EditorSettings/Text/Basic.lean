/-!
# Text

Settings files, keys, values and messages are handled as the list of their characters, because
every rule of the format is a rule about characters and lists are what induction works on.

* `Text.lines` reads a text as lines: a newline ends a line, and what follows the last newline
  is a line only if it is not empty.
* `Text.inRanges` looks a code point up in a table of ascending ranges, the form in which the
  classes of characters are kept.
-/

namespace EditorSettings

/-- Text is the list of its characters. -/
abbrev Text := List Char

/-! ## Lines -/

namespace Text

/-- The lines of a text: its pieces at newlines, without a last piece that is empty. -/
def lines (t : Text) : List Text :=
  let ps := t.splitOn '\n'
  if ps.getLast? = some [] then ps.dropLast else ps

/-! ## Classes of characters -/

/-- Whether a code point lies in one of the ascending ranges. -/
def inRanges (n : Nat) : List (Nat × Nat) → Bool
  | [] => false
  | (low, high) :: rest => low ≤ n && (n ≤ high || inRanges n rest)

end Text

end EditorSettings
