import EditorSettings.Glob.Compile
import EditorSettings.Glob.Search

/-!
# Globs

A glob is a compiled pattern.  `Glob.compile` makes one, and `Glob.accepts` tests it against the
components of a path, of which a pattern without a slash looks at the last ones only.

Two globs are equal if they have the same program and the same ceiling, whatever patterns they
were compiled from.
-/

namespace EditorSettings

structure Glob where
  pattern : List Symbol
  program : Program
  /-- The most choice points that a match may hold. -/
  ceiling : Int

namespace Glob

/-- The ceiling of a glob that asks for no other.  The shortest unit that a pattern can repeat to
add a choice point each time has two symbols, as in `*x`, so half of the 1024 symbols that a
section header is expected to have is enough. -/
def defaultCeiling : Int := 512

def compileWith (ceiling : Int) (pattern : List Symbol) : Except TooManyDigits Glob :=
  match EditorSettings.compile true pattern with
  | .error e => .error e
  | .ok program => .ok ⟨pattern, program, ceiling⟩

def compile (pattern : List Symbol) : Except TooManyDigits Glob :=
  compileWith defaultCeiling pattern

instance : BEq Glob := ⟨fun g h => g.program == h.program && g.ceiling == h.ceiling⟩

/-- Run a glob against a path that is read in the given way.  There is no outcome if the last
component cannot be read. -/
def outcome? (reading : Reading) (g : Glob) (path : List Component) : Option Outcome :=
  (Cursor.start reading path).map (evaluate g.program · g.ceiling)

def acceptsAs (reading : Reading) (g : Glob) (path : List Component) : Bool :=
  (g.outcome? reading path).any Outcome.isMatch

def accepts (g : Glob) (path : List Component) : Bool := g.acceptsAs .raw path

theorem compile_of_compileWith {ceiling : Int} {pattern : List Symbol} {g : Glob}
    (h : compileWith ceiling pattern = .ok g) :
    EditorSettings.compile true pattern = .ok g.program ∧ g.ceiling = ceiling := by
  unfold compileWith at h
  split at h
  · cases h
  next p made =>
    cases h
    exact ⟨made, rfl⟩

theorem compileWith_of_compile {pattern : List Symbol} {program : Program}
    (h : EditorSettings.compile true pattern = .ok program) (ceiling : Int) :
    compileWith ceiling pattern = .ok ⟨pattern, program, ceiling⟩ := by
  rw [compileWith, h]

theorem outcome?_of_start {g : Glob} {reading : Reading} {path : List Component} {c : Cursor}
    (start : Cursor.start reading path = some c) :
    g.outcome? reading path = some (evaluate g.program c g.ceiling) := by
  rw [outcome?, start, Option.map_some]

theorem accepts_of_start {g : Glob} {path : List Component} {c : Cursor}
    (start : Cursor.start .raw path = some c) :
    g.accepts path = (evaluate g.program c g.ceiling).isMatch := by
  rw [accepts, acceptsAs, outcome?_of_start start, Option.any_some]

end Glob

end EditorSettings
