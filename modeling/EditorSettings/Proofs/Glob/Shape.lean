import EditorSettings.Glob.Program
import EditorSettings.Text.Decimal

/-! # Programs of a shape

A choice holds programs, so what is said of a program is mostly said of the nodes at every depth of
it.  `Node.Every P Q` asks `P` of every atom and `Q` of the branches of every choice.

* `Program.Runnable` is the shape that a search needs: a choice has a branch to take, and the bounds
  of a range can be counted;
* `Atom.Canonical` is the form in which compiling leaves an atom, `Atom.Writable` says that a pattern
  can name all that is in it.
-/

namespace EditorSettings

/-- All atoms at any depth satisfy `P`, and the branches of all choices satisfy `Q`. -/
inductive Node.Every (P : Atom → Prop) (Q : List Program → Prop) : Node → Prop
  | atom {a} (h : P a) : Every P Q (.atom a)
  | run {crossing} : Every P Q (.run crossing)
  | choice {branches} (here : Q branches) (inside : ∀ b ∈ branches, ∀ n ∈ b, Every P Q n) :
      Every P Q (.choice branches)

def Program.Every (P : Atom → Prop) (Q : List Program → Prop) (p : Program) : Prop :=
  ∀ n ∈ p, n.Every P Q

section Every

variable {P P' : Atom → Prop} {Q Q' : List Program → Prop}

@[simp] theorem every_atom {a : Atom} : (Node.atom a).Every P Q ↔ P a := by
  constructor
  · intro h
    cases h with
    | atom h => exact h
  · exact .atom

@[simp] theorem every_run {crossing : Bool} : (Node.run crossing).Every P Q := .run

theorem every_choice {branches : List Program} :
    (Node.choice branches).Every P Q ↔ Q branches ∧ ∀ b ∈ branches, Program.Every P Q b := by
  constructor
  · intro h
    cases h with
    | choice here inside => exact ⟨here, inside⟩
  · rintro ⟨here, inside⟩
    exact .choice here inside

@[simp] theorem every_nil : Program.Every P Q [] := List.forall_mem_nil _

@[simp] theorem every_cons {n : Node} {p : Program} :
    Program.Every P Q (n :: p) ↔ n.Every P Q ∧ p.Every P Q :=
  List.forall_mem_cons

@[simp] theorem every_append {p q : Program} :
    Program.Every P Q (p ++ q) ↔ p.Every P Q ∧ q.Every P Q :=
  List.forall_mem_append

theorem Node.Every.imp (atoms : ∀ a, P a → P' a) (branches : ∀ bs, Q bs → Q' bs) {n : Node}
    (h : n.Every P Q) : n.Every P' Q' := by
  induction h with
  | atom h => exact .atom (atoms _ h)
  | run => exact .run
  | choice here _ ih => exact .choice (branches _ here) ih

theorem Program.Every.imp (atoms : ∀ a, P a → P' a) (branches : ∀ bs, Q bs → Q' bs) {p : Program}
    (h : p.Every P Q) : p.Every P' Q' :=
  fun n member => (h n member).imp atoms branches

theorem Node.Every.and {n : Node} (left : n.Every P Q) (right : n.Every P' Q') :
    n.Every (fun a => P a ∧ P' a) fun bs => Q bs ∧ Q' bs := by
  induction left with
  | atom h => exact .atom ⟨h, every_atom.1 right⟩
  | run => exact .run
  | choice here _ ih =>
    obtain ⟨here', inside'⟩ := every_choice.1 right
    exact .choice ⟨here, here'⟩ fun b hb n hn => ih b hb n hn (inside' b hb n hn)

theorem Program.Every.and {p : Program} (left : p.Every P Q) (right : p.Every P' Q') :
    p.Every (fun a => P a ∧ P' a) fun bs => Q bs ∧ Q' bs :=
  fun n member => (left n member).and (right n member)

end Every

/-! ## Programs that can be run -/

def Short (n : Int) : Prop := (Decimal.write n.natAbs).length ≤ Decimal.digitLimit

theorem Short.min {a b : Int} (short : Short a) (short' : Short b) : Short (min a b) := by
  rw [Int.min_def]
  split
  · exact short
  · exact short'

theorem Short.max {a b : Int} (short : Short a) (short' : Short b) : Short (max a b) := by
  rw [Int.max_def]
  split
  · exact short'
  · exact short

theorem width_of_short {low high : Int} (short : Short low) (short' : Short high) :
    Decimal.width (max low.natAbs high.natAbs) =
      .ok (Decimal.write (max low.natAbs high.natAbs)).length := by
  apply Decimal.width_eq_ok
  obtain le | le := Nat.le_total low.natAbs high.natAbs
  · rwa [Nat.max_eq_right le]
  · rwa [Nat.max_eq_left le]

def Atom.Runnable : Atom → Prop
  | .number low high => Short low ∧ Short high
  | _ => True

/-- Every choice has a branch and every bound is within the limit. -/
def Program.Runnable (p : Program) : Prop := p.Every Atom.Runnable (· ≠ [])

/-! ## Atoms of a pattern -/

/-- No slash in a literal or a class, no class that says less than another atom would, and bounds in
order.  The root is no atom of this kind, for it only starts a program. -/
def Atom.Canonical : Atom → Prop
  | .boundary => True
  | .anyChar => True
  | .literal text => text ≠ [] ∧ .scalar '/' ∉ text
  | .charClass members inclusive =>
    '/'.toNat ∉ members ∧ (if inclusive then 2 else 1) ≤ members.size
  | .number low high => low ≤ high
  | .root => False

/-- The members of a class are code points, and the bounds of a range are within the limit. -/
def Atom.Writable : Atom → Prop
  | .charClass members _ => ∀ n ∈ members, n < 0x110000
  | .number low high => Short low ∧ Short high
  | _ => True

theorem Atom.Writable.runnable {a : Atom} (h : a.Writable) : a.Runnable := by
  cases a with
  | number low high => exact h
  | boundary | anyChar | literal _ | charClass _ _ | root => trivial

end EditorSettings
