import Mathlib.Logic.Relation
import EditorSettings.Glob.Search

/-! # How many choice points a search holds

A search holds a choice point for a run, and for a choice while there are branches left to try.  It
passes each node once on the way to where it is, so the choice points of the nodes that it has passed
and of those that it may still pass are bounded by the nodes themselves: that is the load of a program,
and `holds_step` keeps the bound.

A run of one star at the end of a program with a boundary before it is not counted.  The boundary is
only passed where the component is used up, and there the run has nothing left to try, so its choice
point is gone before any other is pushed (`Search.Opening`).
-/

namespace EditorSettings

/-! ## Load -/

mutual

/-- The most choice points that a node keeps on the stack while it and its branches are searched. -/
def nodeLoad : Node → Nat
  | .atom _ => 0
  | .run _ => 1
  | .choice branches => branchesLoad branches

/-- The most choice points that the nodes of a program keep on the stack, all together. -/
def programLoad : List Node → Nat
  | [] => 0
  | n :: rest => nodeLoad n + programLoad rest

/-- The most choice points that branches keep on the stack when they are tried in turn.  The last of
them is tried when no other is left. -/
def branchesLoad : List (List Node) → Nat
  | [] => 0
  | b :: rest => max (min 1 rest.length + programLoad b) (branchesLoad rest)

end

theorem programLoad_append (p q : Program) : programLoad (p ++ q) = programLoad p + programLoad q := by
  induction p with
  | nil => simp [programLoad]
  | cons n p ih => simp [programLoad, ih, Nat.add_assoc]

theorem programLoad_reverse (p : Program) : programLoad p.reverse = programLoad p := by
  induction p with
  | nil => rfl
  | cons n p ih => simp [programLoad, programLoad_append, ih, Nat.add_comm]

def Continuation.load : Continuation → Nat
  | [] => 0
  | f :: outer => programLoad f.pending + load outer

def ChoicePoint.load : ChoicePoint → Nat
  | .longer _ k => k.load
  | .branches _ k _ untried => branchesLoad untried + k.load

def Phase.load : Phase → Nat
  | .advancing k _ => k.load
  | .retreating => 0

@[simp] theorem load_cons (f : Frame) (outer : Continuation) :
    Continuation.load (f :: outer) = programLoad f.pending + outer.load := rfl

@[simp] theorem load_enter (branch : Nat) (p : Program) (k : Continuation) :
    (k.enter branch p).load = programLoad p + k.load := by
  simp [Continuation.enter, programLoad_reverse]

/-! ## Searches within a bound -/

/-- What each choice point may still push fits on top of the ones below it. -/
def StackHolds (limit : Nat) : List ChoicePoint → Prop
  | [] => True
  | cp :: below => cp.load + below.length ≤ limit ∧ StackHolds limit below

/-- What a search may still push fits on its stack. -/
structure Search.Holds (limit : Nat) (s : Search) : Prop where
  phase : s.phase.load + s.choices.length ≤ limit
  stack : StackHolds limit s.choices

theorem StackHolds.mono {limit limit' : Nat} (le : limit ≤ limit') {choices : List ChoicePoint}
    (h : StackHolds limit choices) : StackHolds limit' choices := by
  induction choices with
  | nil => trivial
  | cons cp below ih => exact ⟨Nat.le_trans h.1 le, ih h.2⟩

theorem Search.Holds.mono {limit limit' : Nat} (le : limit ≤ limit') {s : Search}
    (h : s.Holds limit) : s.Holds limit' :=
  ⟨Nat.le_trans h.phase le, h.stack.mono le⟩

theorem holds_start (p : Program) (c : Cursor) : (Search.start p c).Holds (programLoad p) := by
  refine ⟨?_, trivial⟩
  simp [Search.start, Phase.load, Continuation.load]

theorem holds_pushThen {limit : Nat} {ceiling : Int} {s t : Search} {choice : ChoicePoint}
    {phase : Phase} (stack : StackHolds limit s.choices)
    (here : phase.load + 1 + s.choices.length ≤ limit)
    (there : choice.load + s.choices.length ≤ limit)
    (h : s.pushThen ceiling choice phase = .next t) : t.Holds limit := by
  unfold Search.pushThen at h
  split at h
  · cases h
  · cases h
    refine ⟨?_, there, stack⟩
    simp only [List.length_cons]
    omega

theorem holds_consume {limit : Nat} {ceiling : Int} {s t : Search} {branch : Nat} {n : Node}
    {pending : List Node} {outer : Continuation} {cursor : Cursor}
    (stack : StackHolds limit s.choices)
    (room : Continuation.load (⟨branch, n :: pending⟩ :: outer) + s.choices.length ≤ limit)
    (h : s.consume ceiling ⟨branch, n :: pending⟩ n pending outer cursor = .next t) :
    t.Holds limit := by
  simp only [load_cons, programLoad] at room
  unfold Search.consume at h
  simp only at h
  split at h
  · simp only [nodeLoad] at room
    split at h
    · cases h
    · cases h
      exact ⟨by simp only [Phase.load]; omega, stack⟩
    · cases h
      exact ⟨by simp only [Phase.load, load_cons]; omega, stack⟩
  · simp only [nodeLoad] at room
    split at h
    · cases h
      exact ⟨by simp only [Phase.load, load_cons]; omega, stack⟩
    -- the run itself makes room for its choice point
    · refine holds_pushThen stack ?_ ?_ h
      · simp only [Phase.load, load_cons]
        omega
      · simp only [ChoicePoint.load, load_cons, programLoad, nodeLoad]
        omega
  · cases h
  · simp only [nodeLoad, branchesLoad, List.length_nil] at room
    cases h
    exact ⟨by simp only [Phase.load, load_enter, load_cons]; omega, stack⟩
  · simp only [nodeLoad, branchesLoad, List.length_cons] at room
    refine holds_pushThen stack ?_ ?_ h
    · simp only [Phase.load, load_enter, load_cons]
      omega
    · simp only [ChoicePoint.load, load_cons, branchesLoad]
      omega

theorem holds_resume {limit : Nat} (guarded : Bool) (s : Search) (k : Continuation) (cursor : Cursor)
    {choices : List ChoicePoint} (stack : StackHolds limit choices)
    (room : k.load + choices.length ≤ limit) : (s.resume guarded k cursor choices).Holds limit := by
  unfold Search.resume
  simp only
  split
  · exact ⟨by simp only [Phase.load]; omega, stack⟩
  · exact ⟨by simpa only [Phase.load] using room, stack⟩

/-- A step keeps what a search may still push within its bound. -/
theorem holds_step {limit : Nat} {guarded : Bool} {ceiling : Int} {s t : Search}
    (inv : s.Holds limit) (h : s.step guarded ceiling = .next t) : t.Holds limit := by
  obtain ⟨phase, choices, resumed⟩ := s
  obtain ⟨here, stack⟩ := inv
  unfold Search.step at h
  split at h
  · cases h
  · next outer cursor hp =>
    cases h; cases hp
    exact ⟨by simpa [Phase.load, programLoad] using here, stack⟩
  · next hp =>
    cases hp
    exact holds_consume stack here h
  · next hp =>
    cases hp
    simp only at h
    split at h
    · cases h
    · next cursor k choices =>
      cases h
      exact holds_resume guarded _ k cursor stack.2 stack.1
    · next choices =>
      cases h
      exact ⟨by have := stack.1; simp only [Phase.load]; omega, stack.2⟩
    · next cursor k next last choices =>
      cases h
      have room := stack.1
      simp only [ChoicePoint.load, branchesLoad, List.length_nil] at room
      exact holds_resume guarded _ _ cursor stack.2 (by rw [load_enter]; omega)
    · next cursor k next p q more choices =>
      cases h
      have room := stack.1
      simp only [ChoicePoint.load, branchesLoad, List.length_cons] at room
      refine holds_resume guarded _ _ cursor ⟨?_, stack.2⟩ ?_
      · simp only [ChoicePoint.load, branchesLoad]
        omega
      · simp only [load_enter, List.length_cons]
        omega

/-- A search does not reach a ceiling that its bound stays below. -/
theorem holds_below {limit : Nat} {guarded : Bool} {ceiling : Int} {s : Search}
    (inv : s.Holds limit) (below : limit ≤ ceiling) : s.step guarded ceiling ≠ .done .ceilingReached := by
  obtain ⟨phase, choices, resumed⟩ := s
  have here := inv.phase
  intro h
  unfold Search.step at h
  split at h
  · cases h
  · cases h
  · next branch n pending outer cursor hp =>
    cases hp
    simp only [Phase.load, load_cons, programLoad] at here
    unfold Search.consume Search.pushThen at h
    simp only at h
    split at h
    · split at h <;> cases h
    · simp only [nodeLoad] at here
      split at h
      · cases h
      · split at h
        · omega
        · cases h
    · cases h
    · cases h
    · simp only [nodeLoad, branchesLoad, List.length_cons] at here
      split at h
      · omega
      · cases h
  · simp only at h
    split at h <;> cases h

/-! ## A run at the end -/

/-- A search that has not passed the boundary before the run at the end.  Where it has consumed the
run, there is either nothing left of the component or a choice point for what there is. -/
inductive Search.Opening (rest : List Node) : Search → Prop
  | first {c resumed} :
      Opening rest ⟨.advancing [⟨0, .run false :: .boundary :: rest⟩] c, [], resumed⟩
  | usedUp {c resumed} (nothing : c.dropChar false = none) :
      Opening rest ⟨.advancing [⟨0, .boundary :: rest⟩] c, [], resumed⟩
  | inside {c longer resumed} (something : c.dropChar false = some longer) :
      Opening rest ⟨.advancing [⟨0, .boundary :: rest⟩] c,
        [.longer longer [⟨0, .run false :: .boundary :: rest⟩]], resumed⟩
  | back {longer resumed} :
      Opening rest ⟨.retreating, [.longer longer [⟨0, .run false :: .boundary :: rest⟩]], resumed⟩
  | failed {resumed} : Opening rest ⟨.retreating, [], resumed⟩

theorem crossBoundary_of_dropChar {c d : Cursor} (h : c.dropChar false = some d) :
    c.crossBoundary = none := by
  match c with
  | .root => rfl
  | .within [] _ => cases h
  | .within (_ :: _) _ => rfl

/-- Once the boundary is passed, only the nodes before it count. -/
theorem opening_step {rest : List Node} {guarded : Bool} {ceiling : Int} {s t : Search}
    (inv : s.Opening rest) (h : s.step guarded ceiling = .next t) :
    t.Opening rest ∨ t.Holds (programLoad rest) := by
  cases inv with
  | @first c resumed =>
    left
    simp only [Search.step, Search.consume, Search.pushThen] at h
    split at h
    next nothing =>
      cases h
      exact .usedUp nothing
    next longer something =>
      split at h
      · cases h
      · cases h
        exact .inside something
  | @usedUp c resumed nothing =>
    cases crossed : c.crossBoundary with
    | none =>
      left
      simp only [Search.step, Node.boundary, Search.consume, Cursor.move, crossed] at h
      cases h
      exact .failed
    | some d =>
      right
      simp only [Search.step, Node.boundary, Search.consume, Cursor.move, crossed] at h
      cases h
      exact ⟨by simp [Phase.load, Continuation.load], trivial⟩
  | @inside c longer resumed something =>
    left
    have stays := crossBoundary_of_dropChar something
    simp only [Search.step, Node.boundary, Search.consume, Cursor.move, stays] at h
    cases h
    exact .back
  | @back longer resumed =>
    left
    simp only [Search.step, Search.resume] at h
    cases h
    split
    · exact .failed
    · exact .first
  | failed => cases h

theorem opening_below {rest : List Node} {guarded : Bool} {ceiling : Int} {s : Search}
    (inv : s.Opening rest) (below : 1 ≤ ceiling) : s.step guarded ceiling ≠ .done .ceilingReached := by
  intro h
  cases inv with
  | first =>
    simp only [Search.step, Search.consume, Search.pushThen] at h
    split at h
    · cases h
    · split at h
      next full =>
        simp only [List.length_nil] at full
        omega
      · cases h
  | usedUp | inside =>
    simp only [Search.step, Node.boundary, Search.consume, Cursor.move] at h
    split at h <;> cases h
  | back => cases h
  | failed => cases h

/-! ## Runs -/

/-- A search that stays within a bound, a run at the end apart. -/
def Search.Modest (limit : Nat) (s : Search) : Prop :=
  s.Holds limit ∨ 1 ≤ limit ∧ ∃ rest, programLoad rest ≤ limit ∧ s.Opening rest

theorem Search.Modest.length_le {limit : Nat} {s : Search} (h : s.Modest limit) :
    s.choices.length ≤ limit := by
  obtain holds | ⟨pos, rest, _, opening⟩ := h
  · have := holds.phase
    omega
  · cases opening with
    | first | usedUp | failed => exact Nat.zero_le _
    | inside | back => exact pos

theorem modest_step {limit : Nat} {guarded : Bool} {ceiling : Int} {s t : Search}
    (inv : s.Modest limit) (h : s.step guarded ceiling = .next t) : t.Modest limit := by
  obtain holds | ⟨pos, rest, le, opening⟩ := inv
  · exact .inl (holds_step holds h)
  · obtain opening | holds := opening_step opening h
    · exact .inr ⟨pos, rest, le, opening⟩
    · exact .inl (holds.mono le)

abbrev Search.Reaches (guarded : Bool) (ceiling : Int) : Search → Search → Prop :=
  Relation.ReflTransGen fun s t => s.step guarded ceiling = .next t

theorem modest_reaches {limit : Nat} {guarded : Bool} {ceiling : Int} {s t : Search}
    (inv : s.Modest limit) (reached : s.Reaches guarded ceiling t) : t.Modest limit := by
  induction reached with
  | refl => exact inv
  | tail _ step ih => exact modest_step ih step

theorem modest_run {limit : Nat} {guarded : Bool} {ceiling : Int} (below : limit ≤ ceiling) {s : Search}
    (inv : s.Modest limit) : s.run guarded ceiling ≠ .ceilingReached := by
  fun_induction Search.run guarded ceiling s with
  | case1 s o step =>
    rintro rfl
    obtain holds | ⟨pos, rest, _, opening⟩ := inv
    · exact holds_below holds below step
    · exact opening_below opening (by omega) step
  | case2 s t step ih => exact ih (modest_step inv step)

theorem evaluate_of_load {p : Program} {ceiling : Int} (room : programLoad p ≤ ceiling) (c : Cursor) :
    evaluate p c ceiling ≠ .ceilingReached :=
  modest_run room (.inl (holds_start p c))

/-! ## Other ceilings -/

theorem pushThen_of_below {ceiling ceiling' : Int} {s : Search} {choice : ChoicePoint} {phase : Phase}
    (room : s.choices.length < ceiling → s.choices.length < ceiling')
    (below : s.pushThen ceiling choice phase ≠ .done .ceilingReached) :
    s.pushThen ceiling' choice phase = s.pushThen ceiling choice phase := by
  unfold Search.pushThen at below ⊢
  split at below
  · exact absurd rfl below
  next free =>
    rw [if_neg free, if_neg (by omega)]

/-- A step that does not reach the ceiling is the same at another with room for one more choice point. -/
theorem step_of_below {guarded : Bool} {ceiling ceiling' : Int} {s : Search}
    (room : s.choices.length < ceiling → s.choices.length < ceiling')
    (below : s.step guarded ceiling ≠ .done .ceilingReached) :
    s.step guarded ceiling' = s.step guarded ceiling := by
  obtain ⟨phase, choices, resumed⟩ := s
  match phase with
  | .advancing [] _ | .advancing (⟨_, []⟩ :: _) _ | .retreating => rfl
  | .advancing (⟨_, .atom _ :: _⟩ :: _) _ => rfl
  | .advancing (⟨_, .choice [] :: _⟩ :: _) _ | .advancing (⟨_, .choice [_] :: _⟩ :: _) _ => rfl
  | .advancing (⟨_, .choice (_ :: _ :: _) :: _⟩ :: _) _ => exact pushThen_of_below room below
  | .advancing (⟨_, .run crossing :: _⟩ :: _) c =>
    simp only [Search.step, Search.consume] at below ⊢
    cases drop : c.dropChar crossing with
    | none => rfl
    | some longer =>
      simp only [drop] at below
      exact pushThen_of_below room below

/-- A search that stays below its ceiling takes the same steps below a higher one. -/
theorem run_of_le {guarded : Bool} {ceiling ceiling' : Int} (le : ceiling ≤ ceiling') {s : Search}
    (below : s.run guarded ceiling ≠ .ceilingReached) :
    s.run guarded ceiling' = s.run guarded ceiling := by
  have same {s : Search} (free : s.step guarded ceiling ≠ .done .ceilingReached) :
      s.step guarded ceiling' = s.step guarded ceiling :=
    step_of_below (fun room => Int.lt_of_lt_of_le room le) free
  fun_induction Search.run guarded ceiling s with
  | case1 s o step =>
    have free : s.step guarded ceiling ≠ .done .ceilingReached := by
      rw [step]
      exact fun full => below (Step.done.inj full)
    exact Search.run_of_done ((same free).trans step)
  | case2 s t step ih =>
    have free : s.step guarded ceiling ≠ .done .ceilingReached := by
      rw [step]
      nofun
    rw [Search.run_of_next ((same free).trans step), ih below]

/-- Run a search whose stack may grow: every step finds room for one more choice point. -/
def Search.runUnbounded (guarded : Bool) (s : Search) : Outcome :=
  match _h : s.step guarded (s.choices.length + 1) with
  | .done o => o
  | .next t => t.runUnbounded guarded
termination_by s.potential
decreasing_by exact potential_lt_of_step _h

def evaluateUnbounded (p : Program) (cursor : Cursor) : Outcome :=
  (Search.start p cursor).runUnbounded true

/-- A search that stays below its ceiling ends as it would without one. -/
theorem runUnbounded_of_below {guarded : Bool} {ceiling : Int} {s : Search}
    (below : s.run guarded ceiling ≠ .ceilingReached) :
    s.runUnbounded guarded = s.run guarded ceiling := by
  fun_induction Search.run guarded ceiling s with
  | case1 s o step =>
    have same : s.step guarded (s.choices.length + 1) = s.step guarded ceiling :=
      step_of_below (fun _ => by omega) (by simp [step, below])
    rw [Search.runUnbounded]
    split <;> simp_all
  | case2 s t step ih =>
    have same : s.step guarded (s.choices.length + 1) = s.step guarded ceiling :=
      step_of_below (fun _ => by omega) (by simp [step])
    rw [Search.runUnbounded]
    split <;> simp_all

end EditorSettings
