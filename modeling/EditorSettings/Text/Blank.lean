import EditorSettings.Text.Basic

/-!
# Blank characters and trimming

The blank characters are the Unicode white space together with the four information separators
U+001C to U+001F.  They are dropped at both ends of every line, key and value.

* `trimStart`, `trimEnd` and `trim` drop blanks from a text;
* `trimStart_eq_self` and `trimEnd_eq_self` say which texts they keep.
-/

namespace EditorSettings.Text

/-- The code points of the blank characters, as ascending ranges. -/
def blankRanges : List (Nat × Nat) :=
  [(0x09, 0x0D), (0x1C, 0x20), (0x85, 0x85), (0xA0, 0xA0), (0x1680, 0x1680), (0x2000, 0x200A),
    (0x2028, 0x2029), (0x202F, 0x202F), (0x205F, 0x205F), (0x3000, 0x3000)]

def isBlank (c : Char) : Bool := inRanges c.toNat blankRanges

def trimStart (t : Text) : Text := t.dropWhile isBlank

def trimEnd (t : Text) : Text := (t.reverse.dropWhile isBlank).reverse

def trim (t : Text) : Text := trimEnd (trimStart t)

theorem trimStart_cons_of_blank {c : Char} (h : isBlank c) (t : Text) :
    trimStart (c :: t) = trimStart t := by
  simp [trimStart, h]

theorem trimStart_cons_of_not_blank {c : Char} (h : ¬ isBlank c) (t : Text) :
    trimStart (c :: t) = c :: t := by
  simp [trimStart, h]

/-- Blanks in front of a text do not matter. -/
theorem trimStart_append {w : Text} (h : ∀ c ∈ w, isBlank c) (t : Text) :
    trimStart (w ++ t) = trimStart t := by
  exact List.dropWhile_append_of_pos h

/-- What is left does not start with a blank. -/
theorem not_isBlank_head_trimStart {t : Text} {c : Char} (h : c ∈ (trimStart t).head?) :
    ¬ isBlank c := by
  have := List.head?_dropWhile_not isBlank t
  rw [show List.dropWhile isBlank t = trimStart t from rfl, Option.mem_def.1 h] at this
  simpa using this

theorem trimStart_eq_self {t : Text} (h : ∀ c ∈ t.head?, ¬ isBlank c) : trimStart t = t := by
  cases t with
  | nil => rfl
  | cons c rest => exact trimStart_cons_of_not_blank (h c rfl) rest

theorem trimEnd_eq (t : Text) : trimEnd t = (trimStart t.reverse).reverse := rfl

theorem trimEnd_append {w : Text} (h : ∀ c ∈ w, isBlank c) (t : Text) :
    trimEnd (t ++ w) = trimEnd t := by
  rw [trimEnd_eq, List.reverse_append, trimStart_append (by simpa using h), ← trimEnd_eq]

theorem trimEnd_eq_self {t : Text} (h : ∀ c ∈ t.getLast?, ¬ isBlank c) : trimEnd t = t := by
  rw [trimEnd_eq, trimStart_eq_self (by simpa using h), List.reverse_reverse]

end EditorSettings.Text
