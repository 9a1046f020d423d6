import EditorSettings.Text.Blank
import EditorSettings.Text.Digit
import EditorSettings.Text.Quoted

/-!
# Versions of the specification

A version is written as one to three numbers with dots between them; numbers that are not
written are zero.  The numbers may be in the digits of any script.

* `Version.parse` reads a version.
* `Version.isLegacy` says whether a version is older than the rule that indentation with tabs
  implies an indentation size.
-/

namespace EditorSettings

structure Version where
  major : Nat
  minor : Nat
  patch : Nat
  deriving DecidableEq, Repr

inductive VersionError
  /-- It does not consist of one to three parts of digits. -/
  | invalid (t : Text)
  /-- A part has a digit without a place value. -/
  | notDecimal (part : Text)
  | tooManyDigits (e : TooManyDigits)
  deriving DecidableEq, Repr

/-- The most characters of a quoted part that a message shows. -/
def shownLength : Nat := 200

def VersionError.message : VersionError → Text
  | .invalid t => "invalid version: ".toList ++ Quoted.text t
  | .notDecimal part =>
    "invalid literal for int() with base 10: ".toList ++ (Quoted.text part).take shownLength
  | .tooManyDigits e => e.message

namespace Version

/-- The version of the specification that is followed. -/
def current : Version := ⟨0, 16, 0⟩

/-- The first version in which indentation with tabs implies an indentation size. -/
def sizeFromStyle : Version := ⟨0, 10, 0⟩

def text (v : Version) : Text :=
  List.intercalate ['.'] [Decimal.write v.major, Decimal.write v.minor, Decimal.write v.patch]

def older (v w : Version) : Bool :=
  v.major < w.major || v.major = w.major &&
    (v.minor < w.minor || v.minor = w.minor && v.patch < w.patch)

def isLegacy (v : Version) : Bool := v.older sizeFromStyle

/-- The number that decimal digits of any script stand for. -/
def digitsValue (values : List Nat) : Nat := values.foldl (fun n d => 10 * n + d) 0

/-- Read a part of a version.  The limit is checked on the digits before the first one that has
no place value. -/
def parsePart (part : Text) : Except VersionError Nat :=
  let values := (part.map Text.decimalDigit?).takeWhile Option.isSome
  -- the digits are counted before they are read
  if Decimal.digitLimit < values.length then .error (.tooManyDigits (.reading values.length))
  else if values.length < part.length then .error (.notDecimal part)
  else .ok (digitsValue (values.filterMap id))

def parseParts : List Text → Except VersionError (List Nat)
  | [] => .ok []
  | part :: rest =>
    match parsePart part with
    | .error e => .error e
    | .ok n =>
      match parseParts rest with
      | .error e => .error e
      | .ok more => .ok (n :: more)

def parse (t : Text) : Except VersionError Version :=
  let parts := (Text.trim t).splitOn '.'
  if 3 < parts.length || !parts.all (fun p => !p.isEmpty && p.all Text.isDigit) then
    .error (.invalid t)
  else
    match parseParts parts with
    | .error e => .error e
    | .ok numbers => .ok ⟨numbers.getD 0 0, numbers.getD 1 0, numbers.getD 2 0⟩

end Version

end EditorSettings
