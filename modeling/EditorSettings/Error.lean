import EditorSettings.Text.Quoted
import EditorSettings.Text.Utf8
import EditorSettings.Path

/-!
# What can go wrong with a settings file

* A `Malformation` is a fault of one line, or of the bytes of a file.
* A `ParseError` says in which file and line a malformation is.
* A `ReadFailure` is why a file cannot be read.
* A `Failure` is any of these, or a number with too many digits in a section header.

Each has one function `message` for its wording.
-/

namespace EditorSettings

/-- What is wrong with a line, or with the bytes of a file. -/
inductive Malformation
  | unterminatedHeader
  | emptyHeader
  | notAPair
  | missingKeyOrValue
  | notUtf8 (reason : Utf8.Malformed)
  deriving DecidableEq, Repr

def Malformation.message : Malformation → Text
  | .unterminatedHeader => "unterminated section header".toList
  | .emptyHeader => "empty section header".toList
  | .notAPair => "expected a section header or key = value".toList
  | .missingKeyOrValue => "missing key or value".toList
  | .notUtf8 reason => "not valid UTF-8: ".toList ++ reason.message

structure ParseError where
  fault : Malformation
  /-- The number of the line, counted from 1. -/
  line : Option Nat
  path : Option Text
  deriving DecidableEq, Repr

/-- A message after the place that it is about: a path, a line number, both or neither. -/
def located (path line : Option Text) (message : Text) : Text :=
  match path.toList ++ line.toList with
  | [] => message
  | place => List.intercalate [':'] place ++ ": ".toList ++ message

def ParseError.message (e : ParseError) : Text :=
  located e.path (e.line.map Decimal.write) e.fault.message

inductive ReadFailure
  | noSuchFile
  | permissionDenied
  | isDirectory
  /-- Something on the way to it is no directory. -/
  | notDirectory
  | inputOutput
  | tooManyLinks
  deriving DecidableEq, Repr

namespace ReadFailure

def number : ReadFailure → Nat
  | .noSuchFile => 2
  | .permissionDenied => 13
  | .isDirectory => 21
  | .notDirectory => 20
  | .inputOutput => 5
  | .tooManyLinks => 40

def reason : ReadFailure → Text
  | .noSuchFile => "No such file or directory".toList
  | .permissionDenied => "Permission denied".toList
  | .isDirectory => "Is a directory".toList
  | .notDirectory => "Not a directory".toList
  | .inputOutput => "Input/output error".toList
  | .tooManyLinks => "Too many levels of symbolic links".toList

def message (f : ReadFailure) (path : Path) : Text :=
  "[Errno ".toList ++ Decimal.write f.number ++ "] ".toList ++ f.reason ++ ": ".toList
    ++ Quoted.text path.text

end ReadFailure

inductive Failure
  | malformed (e : ParseError)
  | unreadable (f : ReadFailure) (path : Path)
  | tooManyDigits (e : TooManyDigits)
  deriving DecidableEq

def Failure.message : Failure → Text
  | .malformed e => e.message
  | .unreadable f path => f.message path
  | .tooManyDigits e => e.message

end EditorSettings
