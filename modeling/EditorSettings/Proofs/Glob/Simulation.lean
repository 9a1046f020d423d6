import EditorSettings.Proofs.Glob.Derivation
import EditorSettings.Proofs.Glob.Shape

/-! # Cursors that follow one another

Two cursors may stand on different paths and still move alike.  If a relation between cursors is such
that whatever moves the one moves the other into the same relation, then a program moves them alike too,
whichever branches and lengths of runs it takes (`derives_follows`).  `Node.Uses` says which atoms and
runs a program holds, so that only those have to be looked at.
-/

namespace EditorSettings

/-- All atoms at any depth satisfy `P`, and all runs satisfy `R`. -/
inductive Node.Uses (P : Atom → Prop) (R : Bool → Prop) : Node → Prop
  | atom {a} (h : P a) : Uses P R (.atom a)
  | run {crossing} (h : R crossing) : Uses P R (.run crossing)
  | choice {branches} (inside : ∀ b ∈ branches, ∀ n ∈ b, Uses P R n) : Uses P R (.choice branches)

def Program.Uses (P : Atom → Prop) (R : Bool → Prop) (p : Program) : Prop := ∀ n ∈ p, n.Uses P R

section Uses

variable {P P' : Atom → Prop} {Q : List Program → Prop} {R R' : Bool → Prop}

@[simp] theorem uses_atom {a : Atom} : (Node.atom a).Uses P R ↔ P a := by
  constructor
  · intro h
    cases h with
    | atom h => exact h
  · exact .atom

@[simp] theorem uses_run {crossing : Bool} : (Node.run crossing).Uses P R ↔ R crossing := by
  constructor
  · intro h
    cases h with
    | run h => exact h
  · exact .run

@[simp] theorem uses_choice {branches : List Program} :
    (Node.choice branches).Uses P R ↔ ∀ b ∈ branches, Program.Uses P R b := by
  constructor
  · intro h
    cases h with
    | choice inside => exact inside
  · exact .choice

theorem Node.Every.uses {n : Node} (h : n.Every P Q) : n.Uses P fun _ => True := by
  induction h with
  | atom h => exact .atom h
  | run => exact .run trivial
  | choice _ _ ih => exact .choice ih

theorem Node.Uses.and {n : Node} (left : n.Uses P R) (right : n.Uses P' R') :
    n.Uses (fun a => P a ∧ P' a) fun crossing => R crossing ∧ R' crossing := by
  induction left with
  | atom h => exact .atom ⟨h, uses_atom.1 right⟩
  | run h => exact .run ⟨h, uses_run.1 right⟩
  | choice _ ih => exact .choice fun b hb n hn => ih b hb n hn (uses_choice.1 right b hb n hn)

end Uses

/-- Whatever moves a cursor moves the cursors related to it, and they are related afterwards. -/
structure Follows (P : Atom → Prop) (R : Bool → Prop) (related : Cursor → Cursor → Prop) : Prop where
  move : ∀ {a c c' d}, P a → related c c' → c.move a = .ok (some d) →
    ∃ d', c'.move a = .ok (some d') ∧ related d d'
  dropChar : ∀ {crossing c c' d}, R crossing → related c c' → c.dropChar crossing = some d →
    ∃ d', c'.dropChar crossing = some d' ∧ related d d'

section Follows

variable {P : Atom → Prop} {R : Bool → Prop} {related : Cursor → Cursor → Prop}

theorem Follows.takes (h : Follows P R related) {crossing : Bool} (allowed : R crossing)
    {c c' d : Cursor} (start : related c c') (taken : Takes crossing c d) :
    ∃ d', Takes crossing c' d' ∧ related d d' := by
  induction taken with
  | refl => exact ⟨c', .refl, start⟩
  | tail _ drop ih =>
    obtain ⟨m', taken', here⟩ := ih
    obtain ⟨d', drop', there⟩ := h.dropChar allowed here drop
    exact ⟨d', .tail taken' drop', there⟩

theorem Follows.consumes (h : Follows P R related) {ns : List Node} (uses : ∀ n ∈ ns, n.Uses P R)
    {c c' d : Cursor} (start : related c c') (consumed : Consumes ns c d) :
    ∃ d', Consumes ns c' d' ∧ related d d' := by
  induction consumed generalizing c' with
  | done => exact ⟨c', .done, start⟩
  | atom moved _ ih =>
    obtain ⟨first, others⟩ := List.forall_mem_cons.1 uses
    obtain ⟨m', moved', here⟩ := h.move (uses_atom.1 first) start moved
    obtain ⟨d', more', there⟩ := ih others here
    exact ⟨d', .atom moved' more', there⟩
  | run taken _ ih =>
    obtain ⟨first, others⟩ := List.forall_mem_cons.1 uses
    obtain ⟨m', taken', here⟩ := h.takes (uses_run.1 first) start taken
    obtain ⟨d', more', there⟩ := ih others here
    exact ⟨d', .run taken' more', there⟩
  | choice member _ _ ihInside ihMore =>
    obtain ⟨first, others⟩ := List.forall_mem_cons.1 uses
    have branch := uses_choice.1 first _ member
    obtain ⟨m', inside', here⟩ := ihInside (fun n hn => branch n (List.mem_reverse.1 hn)) start
    obtain ⟨d', more', there⟩ := ihMore others here
    exact ⟨d', .choice member inside' more', there⟩

/-- A program moves related cursors alike. -/
theorem derives_follows (h : Follows P R related) {p : Program} (uses : p.Uses P R)
    {c c' d : Cursor} (start : related c c') (derived : Derives p c d) :
    ∃ d', Derives p c' d' ∧ related d d' :=
  h.consumes (fun n hn => uses n (List.mem_reverse.1 hn)) start derived

end Follows

end EditorSettings
