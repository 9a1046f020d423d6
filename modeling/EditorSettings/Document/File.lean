import EditorSettings.Document.Encoding
import EditorSettings.Document.Reader

/-!
# Settings files

A file is read at once when it is loaded; its preamble is understood then, and its sections when
they are applied.

* `FileSystem` is what loading depends on: the working directory and the bytes of each file.
* `SettingsFile.load` reads a file.
* `SettingsFile.applyTo` applies the sections to a target.  The sections see the target from the
  directory of the file, so no pattern can reach above it.
-/

namespace EditorSettings

structure FileSystem where
  cwd : Path
  read : Path → Except ReadFailure (List UInt8)

/-- The path as seen from the root.  Nothing is resolved. -/
def FileSystem.absolute (fs : FileSystem) (p : Path) : Path := fs.cwd.join p

/-- A settings file whose preamble has been read. -/
structure SettingsFile where
  path : Path
  reader : Reader
  deriving DecidableEq

/-- What became of properties, and what went wrong after that. -/
structure Applied where
  props : Properties
  failure : Option Failure

namespace SettingsFile

def ofBytes (path : Path) (bytes : List UInt8) : Except ParseError SettingsFile :=
  match Encoding.decode bytes with
  -- bytes that are not text have no lines to count
  | .error reason => .error ⟨.notUtf8 reason, none, some path.text⟩
  | .ok t =>
    match Reader.ofText (some path) t with
    | .error e => .error e
    | .ok reader => .ok ⟨path, reader⟩

def load (fs : FileSystem) (path : Path) : Except Failure SettingsFile :=
  match fs.read path with
  | .error f => .error (.unreadable f path)
  | .ok bytes =>
    match ofBytes path bytes with
    | .error e => .error (.malformed e)
    | .ok file => .ok file

def isRoot (f : SettingsFile) : Bool := f.reader.isRoot

/-- The target as the sections see it. -/
def view (f : SettingsFile) (target : Path) : Path :=
  (target.relativeTo? f.path.parent).getD target

def applyTo (f : SettingsFile) (target : Path) (props : Properties) : Applied :=
  ⟨f.reader.applyTo (f.view target).components props, f.reader.failure?⟩

def consumed (f : SettingsFile) : SettingsFile := { f with reader := f.reader.all.2 }

/-- Apply files one after the other, up to the first failure. -/
def applyAll (target : Path) : List SettingsFile → Properties → Applied
  | [], props => ⟨props, none⟩
  | f :: rest, props =>
    match f.applyTo target props with
    | ⟨props, some e⟩ => ⟨props, some e⟩
    | ⟨props, none⟩ => applyAll target rest props

/-- The files after `applyAll`: a failure leaves the files behind it as they were. -/
def consumedAll : List SettingsFile → List SettingsFile
  | [] => []
  | f :: rest =>
    if f.reader.failure?.isSome then f.consumed :: rest else f.consumed :: consumedAll rest

end SettingsFile

end EditorSettings
