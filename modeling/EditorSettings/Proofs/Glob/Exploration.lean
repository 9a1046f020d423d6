import EditorSettings.Proofs.Glob.Derivation
import EditorSettings.Proofs.Glob.Place

/-! # What a search explores

A step replaces what a search does next, or the newest choice point, by what there is to do in its
place: something to do next and at most one choice point on top of the others.  `step_advancing` and
`step_retreating` say so once for all steps, whatever lies further down the stack and whatever has
been resumed before, and everything else is read off them.

* `Search.Consistent` is the invariant.  A visit that was resumed either leads nowhere, or all it
  leads to is ahead of the search in the part of the stack that is more recent than the visit;
* `consistent_step` keeps the invariant and loses nothing that the search leads to: a visit that is
  due again is further down the stack than all it has left behind, so it leads nowhere;
* `answers_run` concludes that the outcome of a search answers where the search leads.
-/

namespace EditorSettings

/-! ## States in place -/

def Phase.InPlace (p : Program) (path : List (Option Component)) : Phase → Prop
  | .advancing k cursor => (k = [] ∨ ∃ whole, Located p whole k) ∧ cursor.On path
  | .retreating => True

/-- A choice point lies inside a program and on a path, and has something left to try. -/
inductive ChoicePoint.InPlace (p : Program) (path : List (Option Component)) : ChoicePoint → Prop
  | longer {cursor k whole} (place : Located p whole k) (on : cursor.On path) :
      InPlace p path (.longer cursor k)
  | branches {cursor branch pending outer next untried whole branches}
      (place : Located p whole (⟨branch, pending⟩ :: outer))
      (node : .choice branches :: pending <:+ whole) (left : branches.drop next = untried)
      (ne : untried ≠ []) (on : cursor.On path) :
      InPlace p path (.branches cursor (⟨branch, pending⟩ :: outer) next untried)

/-- All that a search still has to do lies inside a program and on a path. -/
structure Search.InPlace (p : Program) (path : List (Option Component)) (s : Search) : Prop where
  phase : s.phase.InPlace p path
  choices : ∀ cp ∈ s.choices, cp.InPlace p path

/-! ## Steps -/

/-- A phase and choice points do what is left to do, no more and no less, and cost less. -/
structure Expands (p : Program) (path : List (Option Component)) (leads : Cursor → Prop)
    (budget : Nat) (phase : Phase) (pushed : List ChoicePoint) : Prop where
  leads_iff : ∀ e, leads e ↔ phase.LeadsTo e ∨ AnyLeadsTo pushed e
  here : phase.InPlace p path
  there : ∀ cp ∈ pushed, cp.InPlace p path
  cheaper : Search.phaseCost phase + Search.choicesCost pushed < budget

/-- A search goes on with a phase and new choice points, if there is room for them. -/
def StepsTo (k : Continuation) (c : Cursor) (phase : Phase) (pushed : List ChoicePoint) : Prop :=
  ∀ (guarded : Bool) (ceiling : Int) (choices : List ChoicePoint) (resumed : Std.HashSet Visit),
    Search.step guarded ceiling ⟨.advancing k c, choices, resumed⟩ =
      if pushed ≠ [] ∧ ceiling ≤ choices.length then .done .ceilingReached
      else .next ⟨phase, pushed ++ choices, resumed⟩

/-- A search goes back to a state and leaves choice points for what it has not tried. -/
def ResumesAt (cp : ChoicePoint) (k : Continuation) (c : Cursor) (pushed : List ChoicePoint) :
    Prop :=
  ∀ (guarded : Bool) (ceiling : Int) (choices : List ChoicePoint) (resumed : Std.HashSet Visit),
    Search.step guarded ceiling ⟨.retreating, cp :: choices, resumed⟩ =
      .next (if guarded && resumed.contains (k.place, c.position) then
          ⟨.retreating, pushed ++ choices, resumed⟩
        else ⟨.advancing k c, pushed ++ choices, resumed.insert (k.place, c.position)⟩)

theorem StepsTo.cheaper {k : Continuation} {c : Cursor} {phase : Phase}
    {pushed : List ChoicePoint} (h : StepsTo k c phase pushed) :
    Search.phaseCost phase + Search.choicesCost pushed < Search.cost k c.rank := by
  -- what a step does is the same on every stack, so it may be looked at where there is room
  have step := h false 1 [] ∅
  rw [if_neg (by simp)] at step
  have less := Search.potential_lt_of_step step
  simpa [Search.potential, Search.phaseCost] using less

theorem ResumesAt.cheaper {cp : ChoicePoint} {k : Continuation} {c : Cursor}
    {pushed : List ChoicePoint} (h : ResumesAt cp k c pushed) :
    Search.phaseCost (.advancing k c) + Search.choicesCost pushed
      < Search.choiceCost cp := by
  have less := Search.potential_lt_of_step (h false 1 [] ∅)
  simpa [Search.potential, Search.phaseCost] using less

section Steps

variable {p : Program} {path : List (Option Component)}

theorem move_of_runnable {a : Atom} (runnable : a.Runnable) (c : Cursor) :
    ∃ moved, c.move a = .ok moved := by
  cases a with
  | number low high =>
    cases c with
    | root => exact ⟨_, rfl⟩
    | within left above =>
      simp only [Cursor.move, Cursor.dropNumber, width_of_short runnable.1 runnable.2]
      split
      · exact ⟨_, rfl⟩
      · exact ⟨_, rfl⟩
  | boundary | anyChar | literal text | charClass members inclusive | root => exact ⟨_, rfl⟩

theorem stepsTo_atom {branch : Nat} {a : Atom} {pending whole : List Node} {outer : Continuation}
    {c : Cursor} (runnable : a.Runnable) (on : c.On path)
    (place : Located p whole (⟨branch, .atom a :: pending⟩ :: outer)) :
    ∃ phase, StepsTo (⟨branch, .atom a :: pending⟩ :: outer) c phase [] ∧ phase.InPlace p path ∧
      ∀ e, Continuation.LeadsTo (⟨branch, .atom a :: pending⟩ :: outer) c e ↔ phase.LeadsTo e := by
  obtain ⟨moved, move⟩ := move_of_runnable runnable c
  cases moved with
  | none =>
    refine ⟨.retreating, ?_, trivial, ?_⟩
    · intro guarded ceiling choices resumed
      simp [Search.step, Search.consume, move]
    · intro e
      simp [leadsTo_atom, move, Phase.LeadsTo]
  | some d =>
    refine ⟨.advancing (⟨branch, pending⟩ :: outer) d, ?_, ?_, ?_⟩
    · intro guarded ceiling choices resumed
      simp [Search.step, Search.consume, move]
    · exact ⟨.inr ⟨whole, place.drop (List.suffix_cons _ _)⟩, on_move on move⟩
    · intro e
      simp [leadsTo_atom, move, Phase.LeadsTo]

theorem stepsTo_run {branch : Nat} {crossing : Bool} {pending whole : List Node}
    {outer : Continuation} {c : Cursor} (on : c.On path)
    (place : Located p whole (⟨branch, .run crossing :: pending⟩ :: outer)) :
    ∃ pushed,
      StepsTo (⟨branch, .run crossing :: pending⟩ :: outer) c
        (.advancing (⟨branch, pending⟩ :: outer) c) pushed ∧
      (∀ cp ∈ pushed, cp.InPlace p path) ∧
      ∀ e, Continuation.LeadsTo (⟨branch, .run crossing :: pending⟩ :: outer) c e ↔
        Continuation.LeadsTo (⟨branch, pending⟩ :: outer) c e ∨ AnyLeadsTo pushed e := by
  cases drop : c.dropChar crossing with
  | none =>
    refine ⟨[], ?_, by simp, ?_⟩
    · intro guarded ceiling choices resumed
      simp [Search.step, Search.consume, drop]
    · intro e
      rw [leadsTo_run]
      simp [drop]
  | some longer =>
    refine ⟨[.longer longer (⟨branch, .run crossing :: pending⟩ :: outer)], ?_, ?_, ?_⟩
    · intro guarded ceiling choices resumed
      simp [Search.step, Search.consume, Search.pushThen, drop]
    · intro cp member
      rw [List.mem_singleton.1 member]
      exact .longer place (on_dropChar on drop)
    · intro e
      rw [leadsTo_run]
      simp [drop, ChoicePoint.LeadsTo]

theorem stepsTo_choice {branch : Nat} {branches : List Program} {pending whole : List Node}
    {outer : Continuation} {c : Cursor} (ne : branches ≠ []) (on : c.On path)
    (place : Located p whole (⟨branch, .choice branches :: pending⟩ :: outer)) :
    ∃ phase pushed,
      StepsTo (⟨branch, .choice branches :: pending⟩ :: outer) c phase pushed ∧
      phase.InPlace p path ∧ (∀ cp ∈ pushed, cp.InPlace p path) ∧
      ∀ e, Continuation.LeadsTo (⟨branch, .choice branches :: pending⟩ :: outer) c e ↔
        phase.LeadsTo e ∨ AnyLeadsTo pushed e := by
  have after : Located p whole (⟨branch, pending⟩ :: outer) :=
    place.drop (List.suffix_cons _ _)
  have node : .choice branches :: pending <:+ whole := place.suffix
  have first (body : Program) (at_zero : branches[0]? = some body) :
      Phase.InPlace p path
        (.advancing (Continuation.enter 0 body (⟨branch, pending⟩ :: outer)) c) :=
    ⟨.inr ⟨_, .inner after node at_zero (List.suffix_refl _)⟩, on⟩
  match branches with
  | [] => exact absurd rfl ne
  -- with one branch there is nothing to come back to, and no choice point
  | [only] =>
    refine ⟨_, [], ?_, first only rfl, by simp, ?_⟩
    · intro guarded ceiling choices resumed
      simp [Search.step, Search.consume]
    · intro e
      rw [leadsTo_choice, leadsTo_branches 0 1]
      simp [Phase.LeadsTo]
  | body :: second :: others =>
    refine ⟨_, [.branches c (⟨branch, pending⟩ :: outer) 1 (second :: others)], ?_,
      first body rfl, ?_, ?_⟩
    · intro guarded ceiling choices resumed
      simp [Search.step, Search.consume, Search.pushThen]
    · intro cp member
      rw [List.mem_singleton.1 member]
      exact .branches after node rfl (List.cons_ne_nil _ _) on
    · intro e
      rw [leadsTo_choice, leadsTo_branches 0 1]
      simp [Phase.LeadsTo]

/-- A search that advances replaces what is left to do by an expansion of it. -/
theorem step_advancing (runnable : p.Runnable) {k : Continuation} {c : Cursor} (ne : k ≠ [])
    (inPlace : Phase.InPlace p path (.advancing k c)) :
    ∃ phase pushed, Expands p path (k.LeadsTo c) (Search.cost k c.rank) phase pushed ∧
      StepsTo k c phase pushed := by
  obtain ⟨located, on⟩ := inPlace
  obtain ⟨whole, place⟩ := located.resolve_left ne
  match k with
  | [] => exact absurd rfl ne
  | ⟨branch, []⟩ :: outer =>
    have steps : StepsTo (⟨branch, []⟩ :: outer) c (.advancing outer c) [] := by
      intro guarded ceiling choices resumed
      simp [Search.step]
    have here : Phase.InPlace p path (.advancing outer c) := ⟨place.tail, on⟩
    refine ⟨.advancing outer c, [], ⟨?_, here, by simp, steps.cheaper⟩, steps⟩
    intro e
    simp [Phase.LeadsTo]
  | ⟨branch, n :: pending⟩ :: outer =>
    have shape : n.Every Atom.Runnable (· ≠ []) :=
      place.every runnable n (place.suffix.subset List.mem_cons_self)
    cases n with
    | atom a =>
      obtain ⟨phase, steps, here, leads⟩ := stepsTo_atom (every_atom.1 shape) on place
      exact ⟨phase, [], ⟨by simpa using leads, here, by simp, steps.cheaper⟩, steps⟩
    | run crossing =>
      obtain ⟨pushed, steps, there, leads⟩ := stepsTo_run on place
      have here : Phase.InPlace p path (.advancing (⟨branch, pending⟩ :: outer) c) :=
        ⟨.inr ⟨whole, place.drop (List.suffix_cons _ _)⟩, on⟩
      exact ⟨.advancing (⟨branch, pending⟩ :: outer) c, pushed,
        ⟨leads, here, there, steps.cheaper⟩, steps⟩
    | choice branches =>
      obtain ⟨phase, pushed, steps, here, there, leads⟩ :=
        stepsTo_choice (every_choice.1 shape).1 on place
      exact ⟨phase, pushed, ⟨leads, here, there, steps.cheaper⟩, steps⟩

/-- A search that retreats replaces its newest choice point by an expansion of it. -/
theorem step_retreating {cp : ChoicePoint} (inPlace : cp.InPlace p path) :
    ∃ k c pushed, (∃ whole, Located p whole k) ∧
      Expands p path cp.LeadsTo (Search.choiceCost cp) (.advancing k c) pushed ∧
      ResumesAt cp k c pushed := by
  cases inPlace with
  | @longer cursor k whole place on =>
    have resumes : ResumesAt (.longer cursor k) k cursor [] := by
      intro guarded ceiling choices resumed
      rfl
    refine ⟨k, cursor, [], ⟨whole, place⟩, ⟨?_, ⟨.inr ⟨whole, place⟩, on⟩, by simp,
      resumes.cheaper⟩, resumes⟩
    intro e
    simp [ChoicePoint.LeadsTo, Phase.LeadsTo]
  | @branches cursor branch pending outer next untried whole branches place node left ne on =>
    cases untried with
    | nil => exact absurd rfl ne
    | cons body others =>
      have entered : branches[next]? = some body := by
        rw [← List.head?_drop, left]
        rfl
      have inside : Located p body.reverse
          (Continuation.enter next body (⟨branch, pending⟩ :: outer)) :=
        .inner place node entered (List.suffix_refl _)
      have here : Phase.InPlace p path
          (.advancing (Continuation.enter next body (⟨branch, pending⟩ :: outer)) cursor) :=
        ⟨.inr ⟨_, inside⟩, on⟩
      -- the choice point stays on the stack, one branch shorter, until its last branch is taken
      cases others with
      | nil =>
        have resumes : ResumesAt (.branches cursor (⟨branch, pending⟩ :: outer) next [body])
            (Continuation.enter next body (⟨branch, pending⟩ :: outer)) cursor [] := by
          intro guarded ceiling choices resumed
          rfl
        refine ⟨_, cursor, [], ⟨_, inside⟩, ⟨?_, here, by simp, resumes.cheaper⟩, resumes⟩
        intro e
        rw [leadsTo_branches next (next + 1)]
        simp [Phase.LeadsTo]
      | cons second more =>
        have resumes :
            ResumesAt (.branches cursor (⟨branch, pending⟩ :: outer) next (body :: second :: more))
              (Continuation.enter next body (⟨branch, pending⟩ :: outer)) cursor
              [.branches cursor (⟨branch, pending⟩ :: outer) (next + 1) (second :: more)] := by
          intro guarded ceiling choices resumed
          rfl
        have rest : branches.drop (next + 1) = second :: more := by
          rw [← List.drop_drop, left]
          rfl
        refine ⟨_, cursor, _, ⟨_, inside⟩, ⟨?_, here, ?_, resumes.cheaper⟩, resumes⟩
        · intro e
          rw [leadsTo_branches next (next + 1)]
          simp [Phase.LeadsTo]
        · intro cp member
          rw [List.mem_singleton.1 member]
          exact .branches place node rest (List.cons_ne_nil _ _) on

/-! ## The invariant -/

/-- All that a state leads to is still ahead in a recent part of the search, or there is none. -/
def Search.Accounts (s : Search) (k : Continuation) (c : Cursor) : Prop :=
  (∀ e, ¬ k.LeadsTo c e) ∨
    ∃ top bottom, s.choices = top ++ bottom ∧
      Search.phaseCost s.phase + Search.choicesCost top ≤ Search.cost k c.rank ∧
      ∀ e, k.LeadsTo c e → s.phase.LeadsTo e ∨ AnyLeadsTo top e

/-- A search is in place, and accounts for every visit that it has resumed. -/
structure Search.Consistent (p : Program) (path : List (Option Component)) (s : Search) : Prop
    extends s.InPlace p path where
  resumed : ∀ {k whole c}, Located p whole k → c.On path →
    s.resumed.contains (k.place, c.position) = true → s.Accounts k c

theorem consistent_start {c : Cursor} (on : c.On path) :
    (Search.start p c).Consistent p path where
  phase := ⟨.inr ⟨_, .outermost (List.suffix_refl _)⟩, on⟩
  choices := by simp [Search.start]
  resumed := by simp [Search.start]

/-- An expansion of what is done next still accounts for what the search accounted for. -/
theorem Search.Accounts.advance {k k' : Continuation} {c c' : Cursor} {phase : Phase}
    {pushed choices : List ChoicePoint} {resumed : Std.HashSet Visit}
    (expands : Expands p path (k'.LeadsTo c') (Search.cost k' c'.rank) phase pushed)
    (h : Search.Accounts ⟨.advancing k' c', choices, resumed⟩ k c) :
    Search.Accounts ⟨phase, pushed ++ choices, resumed⟩ k c := by
  obtain none | ⟨top, bottom, split, afford, ahead⟩ := h
  · exact .inl none
  · right
    -- what is pushed is more recent than the visit, and costs less than what it replaces
    refine ⟨pushed ++ top, bottom, ?_, ?_, ?_⟩
    · show pushed ++ choices = pushed ++ top ++ bottom
      rw [List.append_assoc]
      exact congrArg (pushed ++ ·) split
    · have cheaper := expands.cheaper
      have afford : Search.cost k' c'.rank + Search.choicesCost top
          ≤ Search.cost k c.rank := afford
      show Search.phaseCost phase + Search.choicesCost (pushed ++ top)
        ≤ Search.cost k c.rank
      rw [Search.choicesCost_append]
      omega
    · intro e leads
      rw [anyLeadsTo_append]
      obtain here | there := ahead e leads
      · obtain here | there := (expands.leads_iff e).1 here
        · exact .inl here
        · exact .inr (.inl there)
      · exact .inr (.inr there)

/-- A visit that was resumed and is due again leads nowhere: what it has left behind costs less than
the choice point that it is due from, and lies above it. -/
theorem Search.Accounts.refuted {cp : ChoicePoint} {k : Continuation} {c : Cursor}
    {pushed choices : List ChoicePoint} {resumed : Std.HashSet Visit}
    (expands : Expands p path cp.LeadsTo (Search.choiceCost cp) (.advancing k c) pushed)
    (h : Search.Accounts ⟨.retreating, cp :: choices, resumed⟩ k c) : ∀ e, ¬ k.LeadsTo c e := by
  obtain none | ⟨top, bottom, split, afford, ahead⟩ := h
  · exact none
  · cases top with
    -- nothing recent is left and the search goes back, so there was nothing to find
    | nil =>
      intro e leads
      obtain here | there := ahead e leads
      · exact here
      · exact anyLeadsTo_nil there
    -- the choice point would be recent, but it costs more than all that the visit could afford
    | cons first others =>
      obtain ⟨rfl, _⟩ := List.cons.inj split
      have cheaper := expands.cheaper
      simp only [Search.phaseCost, Search.choicesCost_cons] at afford cheaper
      omega

/-- An expansion of the newest choice point still accounts for what the search accounted for, whether
the search goes on with its state or passes over a state that leads nowhere. -/
theorem Search.Accounts.retreat {cp : ChoicePoint} {k k' : Continuation} {c c' : Cursor}
    {phase : Phase} {pushed choices : List ChoicePoint} {resumed resumed' : Std.HashSet Visit}
    (expands : Expands p path cp.LeadsTo (Search.choiceCost cp) (.advancing k' c') pushed)
    (cost : Search.phaseCost phase ≤ Search.cost k' c'.rank)
    (leads : ∀ e, k'.LeadsTo c' e → phase.LeadsTo e)
    (h : Search.Accounts ⟨.retreating, cp :: choices, resumed⟩ k c) :
    Search.Accounts ⟨phase, pushed ++ choices, resumed'⟩ k c := by
  obtain none | ⟨top, bottom, split, afford, ahead⟩ := h
  · exact .inl none
  · cases top with
    -- the choice point is older than the visit, which the search is done with
    | nil =>
      left
      intro e reached
      obtain here | there := ahead e reached
      · exact here
      · exact anyLeadsTo_nil there
    -- the choice point is recent, and its expansion takes its place
    | cons first others =>
      obtain ⟨rfl, rest⟩ := List.cons.inj split
      right
      refine ⟨pushed ++ others, bottom, ?_, ?_, ?_⟩
      · show pushed ++ choices = pushed ++ others ++ bottom
        rw [List.append_assoc, rest]
        rfl
      · have cheaper : Search.cost k' c'.rank + Search.choicesCost pushed
            < Search.choiceCost cp := expands.cheaper
        have afford : 0 + (Search.choiceCost cp + Search.choicesCost others)
            ≤ Search.cost k c.rank := afford
        show Search.phaseCost phase + Search.choicesCost (pushed ++ others)
          ≤ Search.cost k c.rank
        rw [Search.choicesCost_append]
        omega
      · intro e reached
        rw [anyLeadsTo_append]
        obtain here | there := ahead e reached
        · exact absurd here id
        · obtain newest | older := anyLeadsTo_cons.1 there
          · obtain here | there := (expands.leads_iff e).1 newest
            · exact .inl (leads e here)
            · exact .inr (.inl there)
          · exact .inr (.inr older)

/-! ## Steps keep the invariant -/

theorem consistent_advance {k : Continuation} {c : Cursor} {phase : Phase}
    {pushed choices : List ChoicePoint} {resumed : Std.HashSet Visit}
    (expands : Expands p path (k.LeadsTo c) (Search.cost k c.rank) phase pushed)
    (inv : Search.Consistent p path ⟨.advancing k c, choices, resumed⟩) :
    Search.Consistent p path ⟨phase, pushed ++ choices, resumed⟩ ∧
      ∀ e, Search.LeadsTo ⟨.advancing k c, choices, resumed⟩ e ↔
        Search.LeadsTo ⟨phase, pushed ++ choices, resumed⟩ e := by
  refine ⟨⟨⟨expands.here, ?_⟩, ?_⟩, ?_⟩
  · intro cp member
    obtain new | old := List.mem_append.1 member
    · exact expands.there cp new
    · exact inv.choices cp old
  · intro k' whole c' place on visited
    exact (inv.resumed place on visited).advance expands
  · intro e
    have split := expands.leads_iff e
    simp only [Search.LeadsTo, Phase.LeadsTo, anyLeadsTo_append, split, or_assoc]

theorem mem_insert_visit {k : Continuation} {c : Cursor} {resumed : Std.HashSet Visit}
    {visit : Visit} (h : (resumed.insert (k.place, c.position)).contains visit = true) :
    visit = (k.place, c.position) ∨ resumed.contains visit = true := by
  rw [Std.HashSet.contains_insert, Bool.or_eq_true, beq_iff_eq] at h
  exact h.imp_left Eq.symm

theorem consistent_retreat {guarded : Bool} {cp : ChoicePoint} {k : Continuation} {c : Cursor}
    {pushed choices : List ChoicePoint} {resumed : Std.HashSet Visit} {t : Search}
    (located : ∃ whole, Located p whole k)
    (expands : Expands p path cp.LeadsTo (Search.choiceCost cp) (.advancing k c) pushed)
    (inv : Search.Consistent p path ⟨.retreating, cp :: choices, resumed⟩)
    (next : t = if guarded && resumed.contains (k.place, c.position) then
        ⟨.retreating, pushed ++ choices, resumed⟩
      else ⟨.advancing k c, pushed ++ choices, resumed.insert (k.place, c.position)⟩) :
    t.Consistent p path ∧
      ∀ e, Search.LeadsTo ⟨.retreating, cp :: choices, resumed⟩ e ↔ t.LeadsTo e := by
  obtain ⟨whole, place⟩ := located
  have on : c.On path := expands.here.2
  have there : ∀ cp' ∈ pushed ++ choices, cp'.InPlace p path := by
    intro cp' member
    obtain new | old := List.mem_append.1 member
    · exact expands.there cp' new
    · exact inv.choices cp' (List.mem_cons_of_mem cp old)
  have split (e : Cursor) := expands.leads_iff e
  by_cases skip : (guarded && resumed.contains (k.place, c.position)) = true
  · rw [if_pos skip] at next
    subst next
    -- the state that is passed over leads nowhere, so it drops out of what the search leads to
    have visited := (Bool.and_eq_true_iff.1 skip).2
    have nowhere := (inv.resumed place on visited).refuted expands
    refine ⟨⟨⟨trivial, there⟩, ?_⟩, ?_⟩
    · intro k' whole' c' place' on' visited'
      exact (inv.resumed place' on' visited').retreat expands (Nat.zero_le _)
        fun e leads => nowhere e leads
    · intro e
      simp [Search.LeadsTo, Phase.LeadsTo, split, nowhere]
  · rw [if_neg skip] at next
    subst next
    refine ⟨⟨⟨expands.here, there⟩, ?_⟩, ?_⟩
    · intro k' whole' c' place' on' visited'
      obtain same | old := mem_insert_visit visited'
      · -- the state that is resumed now is all that its visit leads to
        obtain ⟨samePlace, samePosition⟩ := Prod.mk.inj same
        obtain ⟨_, rfl⟩ := located_unique place' place samePlace
        rw [eq_of_position on' on samePosition]
        exact .inr ⟨[], _, rfl, by simp [Search.phaseCost], fun e leads => .inl leads⟩
      · exact (inv.resumed place' on' old).retreat expands (Nat.le_refl _) fun e leads => leads
    · intro e
      simp [Search.LeadsTo, Phase.LeadsTo, split, or_assoc]

/-- A step keeps the invariant, and neither loses nor adds anything that the search leads to. -/
theorem consistent_step (runnable : p.Runnable) {guarded : Bool} {ceiling : Int} {s t : Search}
    (inv : s.Consistent p path) (step : s.step guarded ceiling = .next t) :
    t.Consistent p path ∧ ∀ e, s.LeadsTo e ↔ t.LeadsTo e := by
  obtain ⟨phase, choices, resumed⟩ := s
  cases phase with
  | advancing k c =>
    by_cases finished : k = []
    · subst finished
      cases step
    · obtain ⟨phase, pushed, expands, steps⟩ := step_advancing runnable finished inv.phase
      rw [steps] at step
      -- a step that finds no room is none that leads to another state
      split at step
      · cases step
      · cases step
        exact consistent_advance expands inv
  | retreating =>
    cases choices with
    | nil => cases step
    | cons cp choices =>
      obtain ⟨k, c, pushed, located, expands, resumes⟩ :=
        step_retreating (inv.choices cp List.mem_cons_self)
      rw [resumes] at step
      exact consistent_retreat located expands inv (Step.next.inj step).symm

/-! ## Runs -/

def Outcome.Answers (leads : Cursor → Prop) : Outcome → Prop
  | .found c => leads c
  | .exhausted => ∀ e, ¬ leads e
  | .ceilingReached => True
  | .fault _ => False

theorem answers_of_done (runnable : p.Runnable) {guarded : Bool} {ceiling : Int} {s : Search}
    {o : Outcome} (inv : s.InPlace p path) (step : s.step guarded ceiling = .done o) :
    o.Answers s.LeadsTo := by
  obtain ⟨phase, choices, resumed⟩ := s
  cases phase with
  | advancing k c =>
    by_cases finished : k = []
    · subst finished
      cases step
      exact .inl rfl
    · obtain ⟨phase, pushed, expands, steps⟩ := step_advancing runnable finished inv.phase
      rw [steps] at step
      split at step
      · cases step
        trivial
      · cases step
  | retreating =>
    cases choices with
    | nil =>
      cases step
      intro e leads
      obtain here | there := leads
      · exact here
      · exact anyLeadsTo_nil there
    | cons cp choices =>
      obtain ⟨k, c, pushed, located, expands, resumes⟩ :=
        step_retreating (inv.choices cp List.mem_cons_self)
      rw [resumes] at step
      cases step

theorem answers_run (runnable : p.Runnable) {guarded : Bool} {ceiling : Int} {s : Search}
    (inv : s.Consistent p path) : (s.run guarded ceiling).Answers s.LeadsTo := by
  fun_induction Search.run guarded ceiling s with
  | case1 s o step => exact answers_of_done runnable inv.toInPlace step
  | case2 s t step ih =>
    obtain ⟨inv', leads⟩ := consistent_step runnable inv step
    have same : s.LeadsTo = t.LeadsTo := funext fun e => propext (leads e)
    rw [same]
    exact ih inv'

theorem answers_of_on (runnable : p.Runnable) {c : Cursor} (on : c.On path) (ceiling : Int) :
    (evaluate p c ceiling).Answers (Derives p c) := by
  have answers : (evaluate p c ceiling).Answers (Search.start p c).LeadsTo :=
    answers_run runnable (consistent_start on)
  have same : (Search.start p c).LeadsTo = Derives p c :=
    funext fun e => propext leadsTo_start
  rw [same] at answers
  exact answers

end Steps

namespace Outcome

variable {leads : Cursor → Prop} {o : Outcome}

theorem Answers.exists_of_isMatch (answers : o.Answers leads) (matched : o.isMatch = true) : ∃ e, leads e := by
  cases o with
  | found d => exact ⟨d, answers⟩
  | exhausted | ceilingReached | fault f => cases matched

theorem Answers.isMatch_iff (answers : o.Answers leads) (below : o ≠ .ceilingReached) :
    o.isMatch = true ↔ ∃ e, leads e := by
  refine ⟨answers.exists_of_isMatch, fun ⟨e, reached⟩ => ?_⟩
  cases o with
  | found d => rfl
  | exhausted => exact absurd reached (answers e)
  | ceilingReached => exact absurd rfl below
  | fault f => exact answers.elim

end Outcome

section Evaluate

variable {p : Program} {reading : Reading} {path : List Component} {c : Cursor} {ceiling : Int}

theorem answers_evaluate (runnable : p.Runnable) (start : Cursor.start reading path = some c)
    (ceiling : Int) : (evaluate p c ceiling).Answers (Derives p c) :=
  answers_of_on runnable (on_start start) ceiling

theorem derives_of_isMatch (runnable : p.Runnable) (start : Cursor.start reading path = some c)
    (matched : (evaluate p c ceiling).isMatch = true) : ∃ e, Derives p c e :=
  (answers_evaluate runnable start ceiling).exists_of_isMatch matched

theorem isMatch_iff_derives (runnable : p.Runnable) (start : Cursor.start reading path = some c)
    (below : evaluate p c ceiling ≠ .ceilingReached) :
    (evaluate p c ceiling).isMatch = true ↔ ∃ e, Derives p c e :=
  (answers_evaluate runnable start ceiling).isMatch_iff below

end Evaluate

/-- What the search finds is derived, and if it finds nothing below the ceiling then nothing is
derived.  It always ends in one of these ways. -/
theorem evaluate_decides_derives {p : Program} (runnable : p.Runnable) {reading : Reading}
    {components : List Component} {c : Cursor}
    (start : Cursor.start reading components = some c) (ceiling : Int) :
    (∀ d, evaluate p c ceiling = .found d → Derives p c d) ∧
      (evaluate p c ceiling = .exhausted → ¬ ∃ d, Derives p c d) ∧
      ∀ f, evaluate p c ceiling ≠ .fault f := by
  have answers := answers_evaluate runnable start ceiling
  refine ⟨?_, ?_, ?_⟩
  · intro d found
    rw [found] at answers
    exact answers
  · intro exhausted
    rw [exhausted] at answers
    exact fun ⟨d, derived⟩ => answers d derived
  · intro f fault
    rw [fault] at answers
    exact answers

/-- The program of `b{*a,a*}{*a,a*}`, which comes to one state in several ways. -/
def starsTwice : Program :=
  let star : Node := .choice [[.run false, .symbol (.scalar 'a')], [.symbol (.scalar 'a'), .run false]]
  [.boundary, .symbol (.scalar 'b'), star, star]

theorem runnable_starsTwice : starsTwice.Runnable := by
  simp [starsTwice, Program.Runnable, Program.Every, every_choice, Node.symbol, Node.boundary,
    Atom.Runnable]

theorem evaluate_decides_derives_starsTwice :
    starsTwice.Runnable ∧ Cursor.start .raw [[97, 97, 97]] = some (.within [97, 97, 97] []) ∧
      ¬ ∃ d, Derives starsTwice (.within [97, 97, 97] []) d := by
  have start : Cursor.start .raw [[97, 97, 97]] = some (.within [97, 97, 97] []) := rfl
  have decided := evaluate_decides_derives runnable_starsTwice start 512
  refine ⟨runnable_starsTwice, start, decided.2.1 ?_⟩
  cbv

end EditorSettings
