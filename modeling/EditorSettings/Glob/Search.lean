import Std.Data.HashSet
import EditorSettings.Glob.Cursor

/-!
# Searching for a match

A program is run against a cursor by a depth-first search with an explicit stack of choice
points.  `Search.step` does one step, and `Search.run` repeats it to the end:

* an atom moves the cursor, or the search retreats to the newest choice point;
* a run first takes no character, and leaves a choice point that takes one and tries again;
* a choice first takes its first branch, and leaves a choice point for the others.

The stack holds at most `ceiling` choice points; a search that needs one more gives up, and a
ceiling below zero allows none, like zero.  A
guarded search resumes each visit, which is a place in the program together with a position in
the path, at most once: its first visit has failed by the time the second is due.  That keeps
the time polynomial.  A search that is not guarded is the same search without this memory.

A run ends because every step lowers `Search.potential`, a bound on the steps of the whole
search below a state (`potential_lt_of_step`).
-/

namespace EditorSettings

/-! ## Places and choice points -/

/-- The nodes of one program that are still to be consumed. -/
structure Frame where
  /-- Which branch of the choice around it the program is; 0 for the outermost program. -/
  branch : Nat
  /-- The nodes left, the last one first. -/
  pending : List Node

/-- What is left to do: the innermost frame, then the ones around it. -/
abbrev Continuation := List Frame

namespace Continuation

def enter (branch : Nat) (p : Program) (k : Continuation) : Continuation := ⟨branch, p.reverse⟩ :: k

/-- The place in the program where a continuation starts: the branch and the number of nodes
left in every frame.

An implementation may tell a frame by the identity of its nodes instead, as an object.  That is coarser
where a program put together by hand holds one object at two places.  It does no harm: where all frames
hold the same nodes, the same is left to do. -/
def place (k : Continuation) : List (Nat × Nat) := k.map fun f => (f.branch, f.pending.length)

end Continuation

abbrev Visit := List (Nat × Nat) × (Int × Nat)

/-- A state to come back to. -/
inductive ChoicePoint
  /-- A run that has taken one more character. -/
  | longer (cursor : Cursor) (k : Continuation)
  /-- The branches of a choice that have not been taken, and the number of the first. -/
  | branches (cursor : Cursor) (k : Continuation) (next : Nat) (untried : List Program)

/-! ## States -/

inductive Fault
  | noBranch
  | tooManyDigits (e : TooManyDigits)
  deriving DecidableEq

inductive Outcome
  | found (c : Cursor)
  | exhausted
  /-- The stack of choice points was full. -/
  | ceilingReached
  | fault (f : Fault)
  deriving DecidableEq

def Outcome.cursor? : Outcome → Option Cursor
  | .found c => some c
  | _ => none

def Outcome.isMatch (o : Outcome) : Bool := o.cursor?.isSome

inductive Phase
  | advancing (k : Continuation) (cursor : Cursor)
  /-- Go back to the newest choice point. -/
  | retreating

structure Search where
  phase : Phase
  /-- The choice points, the newest first. -/
  choices : List ChoicePoint
  resumed : Std.HashSet Visit

inductive Step
  | next (s : Search)
  | done (o : Outcome)

namespace Search

def start (p : Program) (cursor : Cursor) : Search :=
  ⟨.advancing (Continuation.enter 0 p []) cursor, [], ∅⟩

/-- Push a choice point and go on, unless the stack is full. -/
def pushThen (ceiling : Int) (s : Search) (choice : ChoicePoint) (phase : Phase) : Step :=
  if ceiling ≤ s.choices.length then .done .ceilingReached
  else .next { s with phase, choices := choice :: s.choices }

def consume (ceiling : Int) (s : Search) (f : Frame) (n : Node) (pending : List Node)
    (outer : Continuation) (cursor : Cursor) : Step :=
  let after : Continuation := { f with pending } :: outer
  match n with
  | .atom a =>
    match cursor.move a with
    | .error e => .done (.fault (.tooManyDigits e))
    | .ok none => .next { s with phase := .retreating }
    | .ok (some moved) => .next { s with phase := .advancing after moved }
  | .run crossing =>
    match cursor.dropChar crossing with
    -- with nothing to take there is nothing to come back for
    | none => .next { s with phase := .advancing after cursor }
    | some longer =>
      s.pushThen ceiling (.longer longer ({ f with pending := n :: pending } :: outer))
        (.advancing after cursor)
  | .choice [] => .done (.fault .noBranch)
  -- the only branch needs no place on the stack
  | .choice [only] => .next { s with phase := .advancing (after.enter 0 only) cursor }
  | .choice (first :: second :: others) =>
    s.pushThen ceiling (.branches cursor after 1 (second :: others))
      (.advancing (after.enter 0 first) cursor)

/-- Go on from a choice point, with `choices` left on the stack.  A guarded search goes further
back if it has been here before. -/
def resume (guarded : Bool) (s : Search) (k : Continuation) (cursor : Cursor)
    (choices : List ChoicePoint) : Search :=
  let visit : Visit := (k.place, cursor.position)
  if guarded && s.resumed.contains visit then { s with phase := .retreating, choices }
  else ⟨.advancing k cursor, choices, s.resumed.insert visit⟩

def step (guarded : Bool) (ceiling : Int) (s : Search) : Step :=
  match s.phase with
  | .advancing [] cursor => .done (.found cursor)
  | .advancing (⟨_, []⟩ :: outer) cursor => .next { s with phase := .advancing outer cursor }
  | .advancing (⟨branch, n :: pending⟩ :: outer) cursor =>
    s.consume ceiling ⟨branch, n :: pending⟩ n pending outer cursor
  | .retreating =>
    match s.choices with
    | [] => .done .exhausted
    | .longer cursor k :: choices => .next (s.resume guarded k cursor choices)
    | .branches _ _ _ [] :: choices => .next { s with choices }
    | .branches cursor k next [last] :: choices =>
      .next (s.resume guarded (k.enter next last) cursor choices)
    | .branches cursor k next (p :: q :: more) :: choices =>
      .next (s.resume guarded (k.enter next p) cursor
        (.branches cursor k (next + 1) (q :: more) :: choices))

/-! ## The potential of a state

The potential counts the steps of a search that finds nothing.  The cost of a node is a function
of the rank of the cursor it is consumed at, given the cost of what follows. -/

/-- The cost of going on from any rank up to `r`. -/
def upTo (after : Nat → Nat) : Nat → Nat
  | 0 => after 0
  | r + 1 => after (r + 1) + upTo after r

/-- The cost of the choice points that a run leaves at the ranks below `r`. -/
def below (after : Nat → Nat) : Nat → Nat
  | 0 => 0
  | r + 1 => 2 * below after r + after r + 2

theorem le_upTo {after : Nat → Nat} {i r : Nat} (h : i ≤ r) : after i ≤ upTo after r := by
  induction r with
  | zero => simp [upTo, Nat.le_zero.1 h]
  | succ r ih =>
    simp only [upTo]
    rcases Nat.lt_or_eq_of_le h with h | h
    · have := ih (Nat.le_of_lt_succ h)
      omega
    · subst h; omega

theorem le_below {after : Nat → Nat} {i r : Nat} (h : i < r) :
    2 + after i + below after i ≤ below after r := by
  induction r with
  | zero => exact absurd h (Nat.not_lt_zero i)
  | succ r ih =>
    simp only [below]
    rcases Nat.lt_or_eq_of_le (Nat.le_of_lt_succ h) with h | h
    · have := ih h
      omega
    · subst h; omega

mutual

def nodeCost : Node → (Nat → Nat) → Nat → Nat
  | .atom _, after, r => 1 + upTo after r
  | .run _, after, r => 1 + after r + below after r
  | .choice branches, after, r => 2 + branchesCost branches (fun r => 1 + after r) r

def programCost : List Node → (Nat → Nat) → Nat → Nat
  | [], after => after
  | n :: rest, after => programCost rest (nodeCost n after)

def branchesCost : List (List Node) → (Nat → Nat) → Nat → Nat
  | [], _, _ => 0
  | b :: rest, after, r => 1 + programCost b after r + branchesCost rest after r

end

/-- The cost of nodes in the order in which they are consumed. -/
def pendingCost : List Node → (Nat → Nat) → Nat → Nat
  | [], after => after
  | n :: rest, after => nodeCost n (pendingCost rest after)

def cost : Continuation → Nat → Nat
  | [], _ => 1
  | f :: outer, r => pendingCost f.pending (fun r => 1 + cost outer r) r

def choiceCost : ChoicePoint → Nat
  | .longer cursor k => 1 + cost k cursor.rank
  | .branches cursor k _ untried => 1 + branchesCost untried (fun r => 1 + cost k r) cursor.rank

def choicesCost : List ChoicePoint → Nat
  | [] => 0
  | c :: choices => choiceCost c + choicesCost choices

def phaseCost : Phase → Nat
  | .advancing k cursor => cost k cursor.rank
  | .retreating => 0

/-- A bound on the steps that are left. -/
def potential (s : Search) : Nat := phaseCost s.phase + choicesCost s.choices

@[simp] theorem choicesCost_nil : choicesCost [] = 0 := rfl

@[simp] theorem choicesCost_cons (c : ChoicePoint) (choices : List ChoicePoint) :
    choicesCost (c :: choices) = choiceCost c + choicesCost choices := rfl

@[simp] theorem choicesCost_append (top bottom : List ChoicePoint) :
    choicesCost (top ++ bottom) = choicesCost top + choicesCost bottom := by
  induction top with
  | nil => simp
  | cons c top ih => simp [ih, Nat.add_assoc]

theorem pendingCost_append (ms ns : List Node) (after : Nat → Nat) :
    pendingCost (ms ++ ns) after = pendingCost ms (pendingCost ns after) := by
  induction ms with
  | nil => rfl
  | cons m ms ih => simp [pendingCost, ih]

theorem pendingCost_reverse (p : Program) (after : Nat → Nat) :
    pendingCost p.reverse after = programCost p after := by
  induction p generalizing after with
  | nil => simp [pendingCost, programCost]
  | cons n rest ih => simp [pendingCost_append, pendingCost, programCost, ih]

theorem cost_enter (branch : Nat) (p : Program) (k : Continuation) (r : Nat) :
    cost (k.enter branch p) r = programCost p (fun r => 1 + cost k r) r := by
  simp [Continuation.enter, cost, pendingCost_reverse]

theorem cost_cons_cons (branch : Nat) (n : Node) (pending : List Node) (outer : Continuation) :
    cost (⟨branch, n :: pending⟩ :: outer) = nodeCost n (cost (⟨branch, pending⟩ :: outer)) := by
  funext r; rfl

theorem potential_pushThen {ceiling : Int} {s t : Search} {choice : ChoicePoint} {phase : Phase}
    (h : s.pushThen ceiling choice phase = .next t) :
    t.potential = phaseCost phase + choiceCost choice + choicesCost s.choices := by
  unfold pushThen at h
  split at h
  · cases h
  · cases h; simp [potential, Nat.add_assoc]

theorem potential_resume_le (guarded : Bool) (s : Search) (k : Continuation) (cursor : Cursor)
    (choices : List ChoicePoint) :
    (s.resume guarded k cursor choices).potential
      ≤ cost k cursor.rank + choicesCost choices := by
  unfold resume
  simp only
  split <;> simp [potential, phaseCost]

theorem potential_consume {ceiling : Int} {s t : Search} {branch : Nat} {n : Node}
    {pending : List Node} {outer : Continuation} {cursor : Cursor}
    (h : s.consume ceiling ⟨branch, n :: pending⟩ n pending outer cursor = .next t) :
    t.potential < cost (⟨branch, n :: pending⟩ :: outer) cursor.rank
      + choicesCost s.choices := by
  rw [cost_cons_cons]
  unfold consume at h
  simp only at h
  split at h
  · split at h
    · cases h
    · cases h
      simp only [potential, phaseCost, nodeCost]
      omega
    · -- the cursor may have moved to any lower rank, and `upTo` pays for all of them
      next moved hm =>
      cases h
      have := @le_upTo (cost (⟨branch, pending⟩ :: outer)) _ _ (Cursor.rank_move_le hm)
      simp only [potential, phaseCost, nodeCost]
      omega
  · split at h
    · cases h
      simp only [potential, phaseCost, nodeCost]
      omega
    · -- the run that goes on one character later is paid for by `below`
      next longer hd =>
      have := @le_below (cost (⟨branch, pending⟩ :: outer)) _ _ (Cursor.rank_dropChar_lt hd)
      rw [potential_pushThen h]
      simp only [phaseCost, choiceCost, nodeCost, cost_cons_cons]
      omega
  · cases h
  · cases h
    simp only [potential, phaseCost, nodeCost, branchesCost, cost_enter]
    omega
  · rw [potential_pushThen h]
    simp only [phaseCost, choiceCost, nodeCost, branchesCost, cost_enter]
    omega

/-- Every step lowers the potential. -/
theorem potential_lt_of_step {guarded : Bool} {ceiling : Int} {s t : Search}
    (h : s.step guarded ceiling = .next t) : t.potential < s.potential := by
  obtain ⟨phase, choices, resumed⟩ := s
  unfold step at h
  split at h
  · cases h
  · next outer cursor hp =>
    cases h; cases hp
    simp only [potential, phaseCost, cost, pendingCost]
    omega
  · next branch n pending outer cursor hp =>
    cases hp
    exact potential_consume h
  · next hp =>
    cases hp
    simp only at h
    split at h
    · cases h
    · next cursor k choices =>
      cases h
      have := potential_resume_le guarded ⟨.retreating, .longer cursor k :: choices, resumed⟩
        k cursor choices
      simp only [potential, phaseCost, choicesCost_cons, choiceCost] at this ⊢
      omega
    · cases h
      simp only [potential, phaseCost, choicesCost_cons, choiceCost]
      omega
    · next cursor k next last choices =>
      cases h
      refine Nat.lt_of_le_of_lt (potential_resume_le _ _ _ _ _) ?_
      simp only [potential, phaseCost, choicesCost_cons, choiceCost, branchesCost,
        cost_enter]
      omega
    · next cursor k next p q more choices =>
      cases h
      refine Nat.lt_of_le_of_lt (potential_resume_le _ _ _ _ _) ?_
      simp only [potential, phaseCost, choicesCost_cons, choiceCost, branchesCost,
        cost_enter]
      omega

/-! ## Running a search -/

def run (guarded : Bool) (ceiling : Int) (s : Search) : Outcome :=
  match _h : s.step guarded ceiling with
  | .done o => o
  | .next t => t.run guarded ceiling
termination_by s.potential
decreasing_by exact potential_lt_of_step _h

theorem run_of_done {guarded : Bool} {ceiling : Int} {s : Search} {o : Outcome}
    (h : s.step guarded ceiling = .done o) : s.run guarded ceiling = o := by
  rw [run]
  split <;> simp_all

theorem run_of_next {guarded : Bool} {ceiling : Int} {s t : Search}
    (h : s.step guarded ceiling = .next t) : s.run guarded ceiling = t.run guarded ceiling := by
  rw [run]
  split <;> simp_all

end Search

/-- Run a program against a cursor, resuming no visit twice. -/
def evaluate (p : Program) (cursor : Cursor) (ceiling : Int) : Outcome :=
  (Search.start p cursor).run true ceiling

end EditorSettings
