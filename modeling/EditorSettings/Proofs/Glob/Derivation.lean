import Mathlib.Logic.Relation
import EditorSettings.Glob.Search

/-! # What a program matches

`Derives p c d` says that the program `p` may move the cursor from `c` to `d`.  It knows nothing of
stacks and orders of trial: a run takes any number of characters, a choice takes any branch.  The
search is measured against it.

* `derives_append`, `derives_atom`, `derives_run` and `derives_choice` compute the relation along a
  program, whose last node comes first;
* `Continuation.LeadsTo`, `ChoicePoint.LeadsTo` and `Search.LeadsTo` carry it over to what a search
  still has to do.
-/

namespace EditorSettings

/-! ## Programs -/

/-- Any number of characters, and of boundaries too if `crossing`. -/
abbrev Takes (crossing : Bool) : Cursor → Cursor → Prop :=
  Relation.ReflTransGen fun c d => c.dropChar crossing = some d

/-- Nodes move a cursor, the first of the list first. -/
inductive Consumes : List Node → Cursor → Cursor → Prop
  | done {c} : Consumes [] c c
  | atom {a rest c d e} (moved : c.move a = .ok (some d)) (more : Consumes rest d e) :
      Consumes (.atom a :: rest) c e
  | run {crossing rest c d e} (taken : Takes crossing c d) (more : Consumes rest d e) :
      Consumes (.run crossing :: rest) c e
  | choice {branches branch rest c d e} (member : branch ∈ branches)
      (inside : Consumes branch.reverse c d) (more : Consumes rest d e) :
      Consumes (.choice branches :: rest) c e

/-- A program moves a cursor, its last node first. -/
def Derives (p : Program) (c d : Cursor) : Prop := Consumes p.reverse c d

@[simp] theorem consumes_nil {c d : Cursor} : Consumes [] c d ↔ c = d := by
  constructor
  · intro h
    cases h
    rfl
  · rintro rfl
    exact .done

theorem consumes_atom {a : Atom} {rest : List Node} {c e : Cursor} :
    Consumes (.atom a :: rest) c e ↔ ∃ d, c.move a = .ok (some d) ∧ Consumes rest d e := by
  constructor
  · intro h
    cases h with
    | atom moved more => exact ⟨_, moved, more⟩
  · rintro ⟨d, moved, more⟩
    exact .atom moved more

theorem consumes_run {crossing : Bool} {rest : List Node} {c e : Cursor} :
    Consumes (.run crossing :: rest) c e ↔ ∃ d, Takes crossing c d ∧ Consumes rest d e := by
  constructor
  · intro h
    cases h with
    | run taken more => exact ⟨_, taken, more⟩
  · rintro ⟨d, taken, more⟩
    exact .run taken more

theorem consumes_choice {branches : List Program} {rest : List Node} {c e : Cursor} :
    Consumes (.choice branches :: rest) c e ↔
      ∃ branch ∈ branches, ∃ d, Derives branch c d ∧ Consumes rest d e := by
  constructor
  · intro h
    cases h with
    | choice member inside more => exact ⟨_, member, _, inside, more⟩
  · rintro ⟨branch, member, d, inside, more⟩
    exact .choice member inside more

theorem consumes_run_step {crossing : Bool} {rest : List Node} {c e : Cursor} :
    Consumes (.run crossing :: rest) c e ↔
      Consumes rest c e ∨
        ∃ d, c.dropChar crossing = some d ∧ Consumes (.run crossing :: rest) d e := by
  simp only [consumes_run]
  constructor
  · rintro ⟨d, taken, more⟩
    obtain rfl | ⟨m, first, others⟩ := taken.cases_head
    · exact .inl more
    · exact .inr ⟨m, first, d, others, more⟩
  · rintro (more | ⟨m, first, d, others, more⟩)
    · exact ⟨c, .refl, more⟩
    · exact ⟨d, .head first others, more⟩

theorem consumes_append {ms ns : List Node} {c e : Cursor} :
    Consumes (ms ++ ns) c e ↔ ∃ d, Consumes ms c d ∧ Consumes ns d e := by
  induction ms generalizing c with
  | nil => simp
  | cons m ms ih =>
    rw [List.cons_append]
    -- each kind of node says what it does before the others, so the cases only regroup
    cases m with
    | atom a =>
      simp only [consumes_atom, ih]
      constructor
      · rintro ⟨m, moved, d, left, right⟩
        exact ⟨d, ⟨m, moved, left⟩, right⟩
      · rintro ⟨d, ⟨m, moved, left⟩, right⟩
        exact ⟨m, moved, d, left, right⟩
    | run crossing =>
      simp only [consumes_run, ih]
      constructor
      · rintro ⟨m, taken, d, left, right⟩
        exact ⟨d, ⟨m, taken, left⟩, right⟩
      · rintro ⟨d, ⟨m, taken, left⟩, right⟩
        exact ⟨m, taken, d, left, right⟩
    | choice branches =>
      simp only [consumes_choice, ih]
      constructor
      · rintro ⟨b, member, m, inside, d, left, right⟩
        exact ⟨d, ⟨b, member, m, inside, left⟩, right⟩
      · rintro ⟨d, ⟨b, member, m, inside, left⟩, right⟩
        exact ⟨b, member, m, inside, d, left, right⟩

@[simp] theorem derives_nil {c d : Cursor} : Derives [] c d ↔ c = d := consumes_nil

theorem derives_append {p q : Program} {c e : Cursor} :
    Derives (p ++ q) c e ↔ ∃ d, Derives q c d ∧ Derives p d e := by
  rw [Derives, List.reverse_append]
  exact consumes_append

theorem derives_atom {a : Atom} {c d : Cursor} :
    Derives [.atom a] c d ↔ c.move a = .ok (some d) := by
  simp [Derives, consumes_atom]

theorem derives_run {crossing : Bool} {c d : Cursor} :
    Derives [.run crossing] c d ↔ Takes crossing c d := by
  simp [Derives, consumes_run]

theorem derives_choice {branches : List Program} {c d : Cursor} :
    Derives [.choice branches] c d ↔ ∃ branch ∈ branches, Derives branch c d := by
  simp [Derives, consumes_choice]

/-! ## Searches -/

/-- What is left to do may end at a cursor. -/
def Continuation.LeadsTo : Continuation → Cursor → Cursor → Prop
  | [], c, e => c = e
  | f :: outer, c, e => ∃ d, Consumes f.pending c d ∧ LeadsTo outer d e

@[simp] theorem leadsTo_nil {c e : Cursor} : Continuation.LeadsTo [] c e ↔ c = e := Iff.rfl

theorem leadsTo_cons {f : Frame} {outer : Continuation} {c e : Cursor} :
    Continuation.LeadsTo (f :: outer) c e ↔
      ∃ d, Consumes f.pending c d ∧ outer.LeadsTo d e := Iff.rfl

theorem leadsTo_enter {branch : Nat} {p : Program} {k : Continuation} {c e : Cursor} :
    (k.enter branch p).LeadsTo c e ↔ ∃ d, Derives p c d ∧ k.LeadsTo d e := Iff.rfl

@[simp] theorem leadsTo_finished {branch : Nat} {outer : Continuation} {c e : Cursor} :
    Continuation.LeadsTo (⟨branch, []⟩ :: outer) c e ↔ outer.LeadsTo c e := by
  simp [leadsTo_cons]

theorem leadsTo_atom {branch : Nat} {a : Atom} {pending : List Node} {outer : Continuation}
    {c e : Cursor} :
    Continuation.LeadsTo (⟨branch, .atom a :: pending⟩ :: outer) c e ↔
      ∃ d, c.move a = .ok (some d) ∧ Continuation.LeadsTo (⟨branch, pending⟩ :: outer) d e := by
  simp only [leadsTo_cons, consumes_atom]
  constructor
  · rintro ⟨m, ⟨d, moved, more⟩, out⟩
    exact ⟨d, moved, m, more, out⟩
  · rintro ⟨d, moved, m, more, out⟩
    exact ⟨m, ⟨d, moved, more⟩, out⟩

theorem leadsTo_run {branch : Nat} {crossing : Bool} {pending : List Node} {outer : Continuation}
    {c e : Cursor} :
    Continuation.LeadsTo (⟨branch, .run crossing :: pending⟩ :: outer) c e ↔
      Continuation.LeadsTo (⟨branch, pending⟩ :: outer) c e ∨
        ∃ d, c.dropChar crossing = some d ∧
          Continuation.LeadsTo (⟨branch, .run crossing :: pending⟩ :: outer) d e := by
  simp only [leadsTo_cons]
  constructor
  · rintro ⟨m, more, out⟩
    obtain more | ⟨d, first, more⟩ := consumes_run_step.1 more
    · exact .inl ⟨m, more, out⟩
    · exact .inr ⟨d, first, m, more, out⟩
  · rintro (⟨m, more, out⟩ | ⟨d, first, m, more, out⟩)
    · exact ⟨m, consumes_run_step.2 (.inl more), out⟩
    · exact ⟨m, consumes_run_step.2 (.inr ⟨d, first, more⟩), out⟩

/-- What a choice point has not tried yet may end at a cursor. -/
def ChoicePoint.LeadsTo : ChoicePoint → Cursor → Prop
  | .longer cursor k, e => k.LeadsTo cursor e
  | .branches cursor k _ untried, e => ∃ p ∈ untried, ∃ d, Derives p cursor d ∧ k.LeadsTo d e

theorem leadsTo_branches {cursor : Cursor} {k : Continuation} {next : Nat} {p : Program}
    {untried : List Program} {e : Cursor} (number later : Nat) :
    (ChoicePoint.branches cursor k next (p :: untried)).LeadsTo e ↔
      (k.enter number p).LeadsTo cursor e ∨
        (ChoicePoint.branches cursor k later untried).LeadsTo e := by
  simp only [ChoicePoint.LeadsTo, leadsTo_enter]
  constructor
  · rintro ⟨q, member, here⟩
    obtain rfl | member := List.mem_cons.1 member
    · exact .inl here
    · exact .inr ⟨q, member, here⟩
  · rintro (here | ⟨q, member, here⟩)
    · exact ⟨p, List.mem_cons_self, here⟩
    · exact ⟨q, List.mem_cons_of_mem p member, here⟩

@[simp] theorem not_leadsTo_branches_nil {cursor : Cursor} {k : Continuation} {next : Nat}
    {e : Cursor} : ¬ (ChoicePoint.branches cursor k next []).LeadsTo e := by
  simp [ChoicePoint.LeadsTo]

theorem leadsTo_choice {branch : Nat} {branches : List Program} {pending : List Node}
    {outer : Continuation} {c e : Cursor} :
    Continuation.LeadsTo (⟨branch, .choice branches :: pending⟩ :: outer) c e ↔
      (ChoicePoint.branches c (⟨branch, pending⟩ :: outer) 0 branches).LeadsTo e := by
  simp only [leadsTo_cons, consumes_choice, ChoicePoint.LeadsTo]
  constructor
  · rintro ⟨m, ⟨p, member, d, inside, more⟩, out⟩
    exact ⟨p, member, d, inside, m, more, out⟩
  · rintro ⟨p, member, d, inside, m, more, out⟩
    exact ⟨m, ⟨p, member, d, inside, more⟩, out⟩

/-- What is to be done next may end at a cursor. -/
def Phase.LeadsTo : Phase → Cursor → Prop
  | .advancing k cursor, e => k.LeadsTo cursor e
  | .retreating, _ => False

def AnyLeadsTo (choices : List ChoicePoint) (e : Cursor) : Prop := ∃ cp ∈ choices, cp.LeadsTo e

@[simp] theorem anyLeadsTo_nil {e : Cursor} : ¬ AnyLeadsTo [] e := by
  simp [AnyLeadsTo]

@[simp] theorem anyLeadsTo_cons {cp : ChoicePoint} {choices : List ChoicePoint} {e : Cursor} :
    AnyLeadsTo (cp :: choices) e ↔ cp.LeadsTo e ∨ AnyLeadsTo choices e := by
  simp [AnyLeadsTo]

@[simp] theorem anyLeadsTo_append {top bottom : List ChoicePoint} {e : Cursor} :
    AnyLeadsTo (top ++ bottom) e ↔ AnyLeadsTo top e ∨ AnyLeadsTo bottom e := by
  simp only [AnyLeadsTo, List.mem_append]
  constructor
  · rintro ⟨cp, member | member, leads⟩
    · exact .inl ⟨cp, member, leads⟩
    · exact .inr ⟨cp, member, leads⟩
  · rintro (⟨cp, member, leads⟩ | ⟨cp, member, leads⟩)
    · exact ⟨cp, .inl member, leads⟩
    · exact ⟨cp, .inr member, leads⟩

/-- A search may end at a cursor, now or after it has gone back. -/
def Search.LeadsTo (s : Search) (e : Cursor) : Prop :=
  s.phase.LeadsTo e ∨ AnyLeadsTo s.choices e

theorem leadsTo_start {p : Program} {c e : Cursor} :
    (Search.start p c).LeadsTo e ↔ Derives p c e := by
  simp [Search.LeadsTo, Search.start, Phase.LeadsTo, leadsTo_enter]

end EditorSettings
