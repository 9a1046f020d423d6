import EditorSettings.Text.Lowercase
import EditorSettings.Text.Quoted
import EditorSettings.Property.Basic

/-!
# Reading values of properties

Words are read in any case.  A number is written in ASCII digits, perhaps after a plus sign.  A
language is two letters, perhaps followed by a hyphen and the two letters of a region.

* `PropertyKind.parse` reads the value of a property.  It refuses a text that is no such value
  (`UnknownValue`), and a number with too many digits.
-/

namespace EditorSettings

inductive UnknownValue
  | notWholeNumber (t : Text)
  | notBoolean (t : Text)
  | notAWord (kind : PropertyKind) (t : Text)
  | notLanguageTag (t : Text)
  deriving DecidableEq, Repr

def UnknownValue.message : UnknownValue → Text
  | .notWholeNumber t => "not a whole number: ".toList ++ Quoted.text t
  | .notBoolean t => "not a boolean: ".toList ++ Quoted.text t
  | .notAWord kind t => "unknown value for ".toList ++ kind.key ++ ": ".toList ++ Quoted.text t
  | .notLanguageTag t => "not a language tag: ".toList ++ Quoted.text t

inductive ValueError
  | unknown (e : UnknownValue)
  | tooManyDigits (e : TooManyDigits)
  deriving DecidableEq, Repr

def ValueError.message : ValueError → Text
  | .unknown e => e.message
  | .tooManyDigits e => e.message

namespace PropertyKind

/-! ## Values of several properties -/

/-- The digits of a number after an optional plus sign. -/
def withoutPlus : Text → Text
  | '+' :: digits => digits
  | t => t

def parseWhole (t : Text) : Except ValueError Nat :=
  let digits := withoutPlus t
  if digits.isEmpty || !digits.all Char.isDigit then .error (.unknown (.notWholeNumber t))
  else
    match Decimal.read digits with
    | .error e => .error (.tooManyDigits e)
    | .ok n => .ok n

def parseBool (t : Text) : Except ValueError Bool :=
  if Text.lower t = "true".toList then .ok true
  else if Text.lower t = "false".toList then .ok false
  else .error (.unknown (.notBoolean t))

def parseWord {α : Type} (kind : PropertyKind) (all : List α) (word : α → Text) (t : Text) :
    Except ValueError α :=
  match all.find? fun a => word a = Text.lower t with
  | none => .error (.unknown (.notAWord kind t))
  | some a => .ok a

def isLetterPair (t : Text) : Bool := t.length = 2 && t.all Char.isAlpha

def parseLanguage (t : Text) : Except ValueError LanguageTag :=
  -- only ASCII letters pass, so the ASCII case maps are the full ones here
  let primary := t.take 2
  let region := t.drop 3
  if isLetterPair t then .ok ⟨t.map Char.toLower, none⟩
  else if isLetterPair primary && t[2]? = some '-' && isLetterPair region then
    .ok ⟨primary.map Char.toLower, some (region.map Char.toUpper)⟩
  else .error (.unknown (.notLanguageTag t))

/-! ## Values of a property -/

def parseIndentSize (t : Text) : Except ValueError IndentSize :=
  if Text.lower t = IndentSize.tab.text then .ok .tab else (parseWhole t).map .columns

def parseMaxLineLength (t : Text) : Except ValueError MaxLineLength :=
  if Text.lower t = MaxLineLength.off.text then .ok .off else (parseWhole t).map .columns

def parse (kind : PropertyKind) (t : Text) : Except ValueError Property :=
  match kind with
  | .indentStyle => (parseWord kind IndentStyle.all IndentStyle.word t).map .indentStyle
  | .indentSize => (parseIndentSize t).map .indentSize
  | .tabWidth => (parseWhole t).map .tabWidth
  | .endOfLine => (parseWord kind EndOfLine.all EndOfLine.word t).map .endOfLine
  | .charset => (parseWord kind Charset.all Charset.word t).map .charset
  | .trimTrailingWhitespace => (parseBool t).map .trimTrailingWhitespace
  | .insertFinalNewline => (parseBool t).map .insertFinalNewline
  | .maxLineLength => (parseMaxLineLength t).map .maxLineLength
  | .spellingLanguage => (parseLanguage t).map .spellingLanguage

/-- What is read as a property is that property. -/
theorem kind_of_parse {kind : PropertyKind} {t : Text} {p : Property}
    (h : kind.parse t = .ok p) : p.kind = kind := by
  cases kind <;>
  · simp only [parse, Except.map] at h
    split at h
    · cases h
    · cases h; rfl

end PropertyKind

end EditorSettings
