import EditorSettings.Glob.Token

/-!
# Compiling patterns

A pattern compiles to a program by feeding its tokens, one by one, to a draft: the program so
far and the groups still open around it.

* A group with at least two branches becomes a choice.  A group with one branch is no group: its
  braces are ordinary symbols.  A group that never closes is written out with its brace and its
  commas as ordinary symbols, innermost group first (`Draft.finish`).
* A pattern with a slash is anchored: it starts at the root instead of at any boundary.
* A pattern that ends in a slash stands for what lies directly below it.

`compile` does not reject any syntax.  It fails only on a numeric bound with too many digits.
-/

namespace EditorSettings

/-! ## Groups -/

/-- A group whose closing brace has not come yet. -/
structure OpenGroup where
  /-- The program before the opening brace. -/
  before : Builder
  /-- The branches that a comma has ended, the last one first. -/
  finished : List Program
  deriving DecidableEq

namespace OpenGroup

/-- The branches of a choice: empty ones first, else as written, each only once. -/
def arrange (branches : List Program) : List Program :=
  -- a search then tries first what takes nothing away
  (branches.filter (·.isEmpty) ++ branches.filter (!·.isEmpty)).eraseDups

def branches (g : OpenGroup) (last : Program) : List Program := g.finished.reverse ++ [last]

def close (fuse : Bool) (g : OpenGroup) (last : Program) : Builder :=
  if g.finished.isEmpty then
    ((g.before.pushSymbol fuse (.scalar '{')).extend fuse last).pushSymbol fuse (.scalar '}')
  else g.before.push fuse (.choice (arrange (g.branches last)))

/-- Write a group out whose closing brace never came. -/
def writeOut (fuse : Bool) (g : OpenGroup) (last : Program) : Builder :=
  let opened := g.before.pushSymbol fuse (.scalar '{')
  match g.branches last with
  | [] => opened
  | first :: others =>
    others.foldl (fun b branch => (b.pushSymbol fuse (.scalar ',')).extend fuse branch)
      (opened.extend fuse first)

end OpenGroup

/-! ## Drafts -/

/-- A program under construction inside open groups. -/
structure Draft where
  /-- The program since the innermost opening brace or comma. -/
  out : Builder
  groups : List OpenGroup
  deriving DecidableEq

namespace Draft

def start : Draft := ⟨.empty, []⟩

def pushSymbol (fuse : Bool) (d : Draft) (s : Symbol) : Draft :=
  { d with out := d.out.pushSymbol fuse s }

def feed (fuse : Bool) (d : Draft) : Token → Draft
  | .boundary => { d with out := d.out.push fuse .boundary }
  | .node n => { d with out := d.out.push fuse n }
  | .symbol s => d.pushSymbol fuse s
  | .openGroup => ⟨.empty, ⟨d.out, []⟩ :: d.groups⟩
  | .comma =>
    match d.groups with
    | [] => d.pushSymbol fuse (.scalar ',')
    | g :: outer => ⟨.empty, { g with finished := d.out.program :: g.finished } :: outer⟩
  | .closeGroup =>
    match d.groups with
    | [] => d.pushSymbol fuse (.scalar '}')
    | g :: outer => ⟨g.close fuse d.out.program, outer⟩

def feedAll (fuse : Bool) (d : Draft) (tokens : List Token) : Draft := tokens.foldl (feed fuse) d

theorem feedAll_append (fuse : Bool) (d : Draft) (ts us : List Token) :
    d.feedAll fuse (ts ++ us) = (d.feedAll fuse ts).feedAll fuse us := List.foldl_append

/-- Two boundaries in a row do what one does. -/
theorem feed_boundary_feed_boundary (fuse : Bool) (d : Draft) :
    (d.feed fuse .boundary).feed fuse .boundary = d.feed fuse .boundary := by
  simp [feed, Builder.push_boundary_push_boundary]

/-- The program of a draft, with every group that is still open written out. -/
def finish (fuse : Bool) (d : Draft) : Builder :=
  d.groups.foldl (fun out g => g.writeOut fuse out.program) d.out

end Draft

/-! ## Patterns -/

def anchored (p : Program) : Program := .atom .root :: p.tail

/-- Let a program that ends in a boundary match one more component. -/
def withLastComponent (p : Program) : Program :=
  if p.getLast? = some .boundary then p ++ [.run false] else p

/-- Compile a pattern.  With `fuse`, neighbouring literals and neighbouring runs are merged. -/
def compile (fuse : Bool) (pattern : List Symbol) : Except TooManyDigits Program :=
  match Token.patternTokens pattern with
  | .error e => .error e
  | .ok tokens =>
    -- the first segment has a boundary before it as every other, so there is a node to replace
    let written := ((Draft.start.feedAll fuse tokens).finish fuse).program
    .ok (withLastComponent (if .scalar '/' ∈ pattern then anchored written else written))

end EditorSettings
