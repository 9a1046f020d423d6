import EditorSettings.Glob.Basic
import EditorSettings.Properties

/-!
# Sections

A section gives properties to the files that a glob matches.

* `Section.ofPattern` starts a section, `Section.insert` adds a pair to it;
* `Section.applyTo` copies the properties onto those of a file, if the glob matches its path.
-/

namespace EditorSettings

structure Section where
  pattern : Text
  glob : Glob
  props : Properties

namespace Section

def ofPattern (pattern : Text) : Except TooManyDigits Section :=
  match Glob.compile (Symbol.ofText pattern) with
  | .error e => .error e
  | .ok glob => .ok ⟨pattern, glob, .empty⟩

theorem ofPattern_of_compile {pattern : Text} {program : Program}
    (h : compile true (Symbol.ofText pattern) = .ok program) : ofPattern pattern =
      .ok ⟨pattern, ⟨Symbol.ofText pattern, program, Glob.defaultCeiling⟩, .empty⟩ := by
  rw [ofPattern, Glob.compile, Glob.compileWith_of_compile h]

/-- Add a pair.  Keys are in lower case, and a later pair replaces an earlier one. -/
def insert (s : Section) (key : Text) (value : Value) : Section :=
  { s with props := s.props.set (Text.lower key) value }

def appliesTo (s : Section) (path : List Component) : Bool := s.glob.accepts path

def applyTo (s : Section) (path : List Component) (target : Properties) : Properties :=
  if s.appliesTo path then s.props.applyTo target else target

end Section

end EditorSettings
