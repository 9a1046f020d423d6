import EditorSettings.Glob.Symbol
import EditorSettings.Glob.CodeSet

/-!
# Glob programs

A compiled pattern is a program: a list of nodes that is consumed from its last node to its
first, while a cursor moves from the end of a path towards its root.

* An `Atom` moves the cursor in one way or not at all.
* A `Node` is an atom, or one of the two nodes between whose ways to go on a search has to
  choose: a run of any characters, and a choice of branches.
* A `Program` is a list of nodes.
* `Builder` appends nodes to a program under construction.  Two boundaries in a row are one
  boundary, as in a path; with `fuse`, neighbouring literals and neighbouring runs become one
  node too.
-/

namespace EditorSettings

/-! ## Nodes -/

/-- A node that moves the cursor in one way or not at all. -/
inductive Atom
  | boundary
  /-- One character of a component. -/
  | anyChar
  | literal (text : List Symbol)
  /-- One character that is among the members, or is not if `inclusive` is false. -/
  | charClass (members : CodeSet) (inclusive : Bool)
  /-- A decimal integer between two bounds. -/
  | number (low high : Int)
  /-- The root, right above a component that is used up. -/
  | root
  deriving DecidableEq

inductive Node
  /-- A node that leaves no choice. -/
  | atom (a : Atom)
  /-- Any number of characters, also across boundaries if `crossing`. -/
  | run (crossing : Bool)
  | choice (branches : List (List Node))

/-- A list of nodes, consumed from the last to the first. -/
abbrev Program := List Node

namespace Node

def symbol (s : Symbol) : Node := .atom (.literal [s])

def boundary : Node := .atom .boundary

mutual

def decEq : (m n : Node) → Decidable (m = n)
  | .atom a, .atom b => decidable_of_iff (a = b) (by simp)
  | .run c, .run d => decidable_of_iff (c = d) (by simp)
  | .choice bs, .choice cs =>
    match decEqBranches bs cs with
    | isTrue h => isTrue (h ▸ rfl)
    | isFalse h => isFalse fun e => h (Node.choice.inj e)
  | .atom _, .run _ => isFalse nofun
  | .atom _, .choice _ => isFalse nofun
  | .run _, .atom _ => isFalse nofun
  | .run _, .choice _ => isFalse nofun
  | .choice _, .atom _ => isFalse nofun
  | .choice _, .run _ => isFalse nofun

def decEqNodes : (ms ns : List Node) → Decidable (ms = ns)
  | [], [] => isTrue rfl
  | [], _ :: _ => isFalse nofun
  | _ :: _, [] => isFalse nofun
  | m :: ms, n :: ns =>
    match decEq m n, decEqNodes ms ns with
    | isTrue h, isTrue h' => isTrue (h ▸ h' ▸ rfl)
    | isFalse h, _ => isFalse fun e => h (List.cons.inj e).1
    | _, isFalse h => isFalse fun e => h (List.cons.inj e).2

def decEqBranches : (bs cs : List (List Node)) → Decidable (bs = cs)
  | [], [] => isTrue rfl
  | [], _ :: _ => isFalse nofun
  | _ :: _, [] => isFalse nofun
  | b :: bs, c :: cs =>
    match decEqNodes b c, decEqBranches bs cs with
    | isTrue h, isTrue h' => isTrue (h ▸ h' ▸ rfl)
    | isFalse h, _ => isFalse fun e => h (List.cons.inj e).1
    | _, isFalse h => isFalse fun e => h (List.cons.inj e).2

end

instance : DecidableEq Node := decEq

end Node

/-! ## Programs under construction -/

structure Builder where
  /-- The nodes, the last one first. -/
  recent : List Node
  deriving DecidableEq

namespace Builder

def empty : Builder := ⟨[]⟩

def ofProgram (p : Program) : Builder := ⟨p.reverse⟩

def program (b : Builder) : Program := b.recent.reverse

@[simp] theorem program_empty : empty.program = [] := rfl

@[simp] theorem program_ofProgram (p : Program) : (ofProgram p).program = p :=
  List.reverse_reverse p

/-- The one node that does the work of two neighbours, if they can be merged. -/
def merge? (fuse : Bool) (last next : Node) : Option Node :=
  match last, next with
  | .atom .boundary, .atom .boundary => some .boundary
  | .atom (.literal s), .atom (.literal t) =>
    if fuse then some (.atom (.literal (s ++ t))) else none
  | .run c, .run d => if fuse then some (.run (c || d)) else none
  | _, _ => none

/-- Append a node, or merge it into the last one. -/
def push (fuse : Bool) (b : Builder) (n : Node) : Builder :=
  match b.recent with
  | [] => ⟨[n]⟩
  | last :: older =>
    match merge? fuse last n with
    | some merged => ⟨merged :: older⟩
    | none => ⟨n :: last :: older⟩

/-- Append a symbol that stands for itself.  A slash is a boundary. -/
def pushSymbol (fuse : Bool) (b : Builder) (s : Symbol) : Builder :=
  b.push fuse (if s = .scalar '/' then .boundary else .symbol s)

def extend (fuse : Bool) (b : Builder) (p : Program) : Builder := p.foldl (push fuse) b

@[simp] theorem extend_nil (fuse : Bool) (b : Builder) : b.extend fuse [] = b := rfl

@[simp] theorem extend_cons (fuse : Bool) (b : Builder) (n : Node) (p : Program) :
    b.extend fuse (n :: p) = (b.push fuse n).extend fuse p := rfl

theorem extend_append (fuse : Bool) (b : Builder) (p q : Program) :
    b.extend fuse (p ++ q) = (b.extend fuse p).extend fuse q := List.foldl_append

/-- A boundary after a boundary changes nothing. -/
theorem push_boundary_push_boundary (fuse : Bool) (b : Builder) :
    (b.push fuse .boundary).push fuse .boundary = b.push fuse .boundary := by
  obtain ⟨recent⟩ := b
  cases recent with
  | nil => rfl
  | cons last older =>
    simp only [push]
    cases h : merge? fuse last .boundary with
    | none => simp [merge?, Node.boundary]
    | some merged =>
      have : merged = .boundary := by
        unfold merge? Node.boundary at h
        split at h <;> simp_all [Node.boundary]
      simp [this, merge?, Node.boundary]

end Builder

end EditorSettings
