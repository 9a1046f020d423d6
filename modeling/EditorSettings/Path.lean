import EditorSettings.Text.Utf8

/-!
# Paths

A path is an anchor and a list of names.  Paths are compared and joined as they are written:
nothing is looked up on disk and `..` is a name like any other.  Reading a path drops empty names
and the name `.`, so a path has one normal form.

* `Path.parse` reads a path, `Path.text` writes it;
* `Path.join`, `Path.parent`, `Path.ancestors` and `Path.relativeTo?` take paths apart and put
  them together;
* `Path.components` are the names as bytes, which is what globs are matched against.
-/

namespace EditorSettings

inductive Anchor
  | relative
  | root
  /-- At the root written as exactly two slashes, which is a root of its own. -/
  | doubleRoot
  deriving DecidableEq, Repr

structure Path where
  anchor : Anchor
  /-- The names below the anchor, outermost first. -/
  names : List Text
  deriving DecidableEq, Repr

namespace Path

/-! ## Reading and writing -/

def anchorOf (slashes : Nat) : Anchor :=
  if slashes = 0 then .relative else if slashes = 2 then .doubleRoot else .root

/-- The names between slashes. -/
def namesIn {α : Type} [DecidableEq α] (slash dot : α) (t : List α) : List (List α) :=
  (t.splitOn slash).filter fun name => name ≠ [] && name ≠ [dot]

def parse (t : Text) : Path :=
  ⟨anchorOf (t.takeWhile (· = '/')).length, namesIn '/' '.' t⟩

def anchorText : Anchor → Text
  | .relative => []
  | .root => ['/']
  | .doubleRoot => ['/', '/']

/-- Write a path.  The path without names at the working directory is a dot. -/
def text (p : Path) : Text :=
  if p = ⟨.relative, []⟩ then ['.'] else anchorText p.anchor ++ List.intercalate ['/'] p.names

def componentsOfBytes (bytes : List UInt8) : List (List UInt8) := namesIn 0x2F 0x2E bytes

def components (p : Path) : List (List UInt8) := p.names.map Utf8.encode

/-! ## Taking apart and putting together -/

def isAbsolute (p : Path) : Bool := p.anchor ≠ .relative

/-- The path `q` as seen from the directory `p`. -/
def join (p q : Path) : Path := if q.isAbsolute then q else ⟨p.anchor, p.names ++ q.names⟩

def parent (p : Path) : Path := ⟨p.anchor, p.names.dropLast⟩

/-- All directories above a path with these names, nearest first. -/
def ancestorsOf (anchor : Anchor) : Nat → List Text → List Path
  | 0, _ => []
  | n + 1, names => ⟨anchor, names.take n⟩ :: ancestorsOf anchor n names

def ancestors (p : Path) : List Path := ancestorsOf p.anchor p.names.length p.names

def relativeTo? (p directory : Path) : Option Path :=
  if p.anchor = directory.anchor ∧ directory.names.isPrefixOf p.names then
    some ⟨.relative, p.names.drop directory.names.length⟩
  else none

theorem join_of_isAbsolute {p q : Path} (h : q.isAbsolute) : p.join q = q := by
  simp [join, h]

/-- A path below a directory, seen from that directory, is what was joined to it. -/
theorem relativeTo?_join {p q : Path} (h : q.anchor = .relative) :
    (p.join q).relativeTo? p = some q := by
  obtain ⟨anchor, names⟩ := q
  subst h
  simp [join, isAbsolute, relativeTo?]

end Path

end EditorSettings
