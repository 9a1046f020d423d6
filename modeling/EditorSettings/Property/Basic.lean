import EditorSettings.Text.Decimal

/-!
# Properties

The nine properties whose values have a meaning, with the types of their values.

* `PropertyKind` names a property, `PropertyKind.key` is its key in a file;
* `Property` is a property with its value, `Property.kind` says which, and `Property.text` is how
  the value is written.
-/

namespace EditorSettings

/-! ## Words -/

inductive IndentStyle
  | tabs
  | spaces
  deriving DecidableEq, Repr

inductive EndOfLine
  | lf
  | crlf
  | cr
  deriving DecidableEq, Repr

inductive Charset
  | utf8
  | latin1
  | utf16le
  | utf16be
  | utf8bom
  deriving DecidableEq, Repr

namespace IndentStyle

def word : IndentStyle → Text
  | .tabs => "tab".toList
  | .spaces => "space".toList

def all : List IndentStyle := [.tabs, .spaces]

end IndentStyle

namespace EndOfLine

def word : EndOfLine → Text
  | .lf => "lf".toList
  | .crlf => "crlf".toList
  | .cr => "cr".toList

def all : List EndOfLine := [.lf, .crlf, .cr]

end EndOfLine

namespace Charset

def word : Charset → Text
  | .utf8 => "utf-8".toList
  | .latin1 => "latin1".toList
  | .utf16le => "utf-16le".toList
  | .utf16be => "utf-16be".toList
  | .utf8bom => "utf-8-bom".toList

def all : List Charset := [.utf8, .latin1, .utf16le, .utf16be, .utf8bom]

end Charset

/-! ## Other values -/

inductive IndentSize
  | tab
  | columns (n : Nat)
  deriving DecidableEq, Repr

inductive MaxLineLength
  | off
  | columns (n : Nat)
  deriving DecidableEq, Repr

/-- A language, such as `en` or `en-US`. -/
structure LanguageTag where
  /-- The language, in lower case. -/
  primary : Text
  /-- The region, in upper case. -/
  region : Option Text
  deriving DecidableEq, Repr

namespace IndentSize

def text : IndentSize → Text
  | .tab => "tab".toList
  | .columns n => Decimal.write n

end IndentSize

namespace MaxLineLength

def text : MaxLineLength → Text
  | .off => "off".toList
  | .columns n => Decimal.write n

end MaxLineLength

namespace LanguageTag

def text (tag : LanguageTag) : Text :=
  match tag.region with
  | none => tag.primary
  | some region => tag.primary ++ ['-'] ++ region

end LanguageTag

/-! ## Properties -/

inductive PropertyKind
  | indentStyle
  | indentSize
  | tabWidth
  | endOfLine
  | charset
  | trimTrailingWhitespace
  | insertFinalNewline
  | maxLineLength
  | spellingLanguage
  deriving DecidableEq, Repr

namespace PropertyKind

def key : PropertyKind → Text
  | .indentStyle => "indent_style".toList
  | .indentSize => "indent_size".toList
  | .tabWidth => "tab_width".toList
  | .endOfLine => "end_of_line".toList
  | .charset => "charset".toList
  | .trimTrailingWhitespace => "trim_trailing_whitespace".toList
  | .insertFinalNewline => "insert_final_newline".toList
  | .maxLineLength => "max_line_length".toList
  | .spellingLanguage => "spelling_language".toList

def all : List PropertyKind :=
  [.indentStyle, .indentSize, .tabWidth, .endOfLine, .charset, .trimTrailingWhitespace,
    .insertFinalNewline, .maxLineLength, .spellingLanguage]

/-- The properties whose values are reported in lower case.  The limit of the line length and
the language are not among them. -/
def standard : List PropertyKind :=
  [.indentSize, .indentStyle, .tabWidth, .endOfLine, .charset, .trimTrailingWhitespace,
    .insertFinalNewline]

def ofKey? (key : Text) : Option PropertyKind := all.find? (·.key = key)

@[simp] theorem ofKey?_key (k : PropertyKind) : ofKey? k.key = some k := by
  cases k <;> decide

/-- A key names one property only. -/
theorem key_injective {k l : PropertyKind} (h : k.key = l.key) : k = l := by
  have found := ofKey?_key k
  rw [h, ofKey?_key] at found
  exact (Option.some.inj found).symm

end PropertyKind

inductive Property
  | indentStyle (style : IndentStyle)
  | indentSize (size : IndentSize)
  | tabWidth (columns : Nat)
  | endOfLine (ending : EndOfLine)
  | charset (encoding : Charset)
  | trimTrailingWhitespace (trim : Bool)
  | insertFinalNewline (insert : Bool)
  | maxLineLength (length : MaxLineLength)
  | spellingLanguage (tag : LanguageTag)
  deriving DecidableEq, Repr

namespace Property

def kind : Property → PropertyKind
  | .indentStyle _ => .indentStyle
  | .indentSize _ => .indentSize
  | .tabWidth _ => .tabWidth
  | .endOfLine _ => .endOfLine
  | .charset _ => .charset
  | .trimTrailingWhitespace _ => .trimTrailingWhitespace
  | .insertFinalNewline _ => .insertFinalNewline
  | .maxLineLength _ => .maxLineLength
  | .spellingLanguage _ => .spellingLanguage

def boolText (b : Bool) : Text := if b then "true".toList else "false".toList

def text : Property → Text
  | .indentStyle style => style.word
  | .indentSize size => size.text
  | .tabWidth columns => Decimal.write columns
  | .endOfLine ending => ending.word
  | .charset encoding => encoding.word
  | .trimTrailingWhitespace trim => boolText trim
  | .insertFinalNewline insert => boolText insert
  | .maxLineLength length => length.text
  | .spellingLanguage tag => tag.text

end Property

end EditorSettings
