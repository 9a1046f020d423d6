import EditorSettings.Proofs.Glob.Characters
import EditorSettings.Proofs.Glob.Load
import EditorSettings.Proofs.Glob.Simulation

/-! # Searching in characters

`TextSearch` is the search for a match on a path of texts: the steps of `Search`, with a `TextCursor` for
each cursor.  If the components of a path are well-formed UTF-8 and the literals of a program are texts,
then the search in the bytes and the search in the characters go through the same states and end alike
(`mirrors_step`, `mirrors_run`).

The two remember different visits, since a place in the bytes and the same place in the characters have
different positions.  As long as all cursors stand on one path they still skip the same states
(`TextCursor.position_iff`).
-/

namespace EditorSettings

/-! ## The search -/

inductive TextChoicePoint
  | longer (cursor : TextCursor) (k : Continuation)
  | branches (cursor : TextCursor) (k : Continuation) (next : Nat) (untried : List Program)

inductive TextPhase
  | advancing (k : Continuation) (cursor : TextCursor)
  | retreating

inductive TextOutcome
  | found (c : TextCursor)
  | exhausted
  | ceilingReached
  | fault (f : Fault)

structure TextSearch where
  phase : TextPhase
  choices : List TextChoicePoint
  resumed : Std.HashSet Visit

inductive TextStep
  | next (s : TextSearch)
  | done (o : TextOutcome)

namespace TextSearch

def start (p : Program) (cursor : TextCursor) : TextSearch :=
  ⟨.advancing (Continuation.enter 0 p []) cursor, [], ∅⟩

def pushThen (ceiling : Int) (s : TextSearch) (choice : TextChoicePoint) (phase : TextPhase) :
    TextStep :=
  if ceiling ≤ s.choices.length then .done .ceilingReached
  else .next { s with phase, choices := choice :: s.choices }

def consume (ceiling : Int) (s : TextSearch) (f : Frame) (n : Node) (pending : List Node)
    (outer : Continuation) (cursor : TextCursor) : TextStep :=
  let after : Continuation := { f with pending } :: outer
  match n with
  | .atom a =>
    match cursor.move a with
    | .error e => .done (.fault (.tooManyDigits e))
    | .ok none => .next { s with phase := .retreating }
    | .ok (some moved) => .next { s with phase := .advancing after moved }
  | .run crossing =>
    match cursor.dropChar crossing with
    | none => .next { s with phase := .advancing after cursor }
    | some longer =>
      s.pushThen ceiling (.longer longer ({ f with pending := n :: pending } :: outer))
        (.advancing after cursor)
  | .choice [] => .done (.fault .noBranch)
  | .choice [only] => .next { s with phase := .advancing (after.enter 0 only) cursor }
  | .choice (first :: second :: others) =>
    s.pushThen ceiling (.branches cursor after 1 (second :: others))
      (.advancing (after.enter 0 first) cursor)

def resume (s : TextSearch) (k : Continuation) (cursor : TextCursor)
    (choices : List TextChoicePoint) : TextSearch :=
  let visit : Visit := (k.place, cursor.position)
  if s.resumed.contains visit then { s with phase := .retreating, choices }
  else ⟨.advancing k cursor, choices, s.resumed.insert visit⟩

def step (ceiling : Int) (s : TextSearch) : TextStep :=
  match s.phase with
  | .advancing [] cursor => .done (.found cursor)
  | .advancing (⟨_, []⟩ :: outer) cursor => .next { s with phase := .advancing outer cursor }
  | .advancing (⟨branch, n :: pending⟩ :: outer) cursor =>
    s.consume ceiling ⟨branch, n :: pending⟩ n pending outer cursor
  | .retreating =>
    match s.choices with
    | [] => .done .exhausted
    | .longer cursor k :: choices => .next (s.resume k cursor choices)
    | .branches _ _ _ [] :: choices => .next { s with choices }
    | .branches cursor k next [last] :: choices => .next (s.resume (k.enter next last) cursor choices)
    | .branches cursor k next (p :: q :: more) :: choices =>
      .next (s.resume (k.enter next p) cursor (.branches cursor k (next + 1) (q :: more) :: choices))

inductive Ends (ceiling : Int) : TextSearch → TextOutcome → Prop
  | done {s o} (step : s.step ceiling = .done o) : Ends ceiling s o
  | next {s t o} (step : s.step ceiling = .next t) (rest : Ends ceiling t o) : Ends ceiling s o

theorem Ends.unique {ceiling : Int} {s : TextSearch} {o o' : TextOutcome} (h : s.Ends ceiling o)
    (h' : s.Ends ceiling o') : o = o' := by
  induction h with
  | done step =>
    cases h' with
    | done step' => exact TextStep.done.inj (step.symm.trans step')
    | next step' => cases step.symm.trans step'
  | next step _ ih =>
    cases h' with
    | done step' => cases step.symm.trans step'
    | next step' rest' =>
      cases step.symm.trans step'
      exact ih rest'

end TextSearch

/-! ## The same search in bytes -/

def TextChoicePoint.encode : TextChoicePoint → ChoicePoint
  | .longer cursor k => .longer cursor.encode k
  | .branches cursor k next untried => .branches cursor.encode k next untried

def TextPhase.encode : TextPhase → Phase
  | .advancing k cursor => .advancing k cursor.encode
  | .retreating => .retreating

def TextOutcome.encode : TextOutcome → Outcome
  | .found c => .found c.encode
  | .exhausted => .exhausted
  | .ceilingReached => .ceilingReached
  | .fault f => .fault f

/-- The literals at any depth of a program are texts. -/
def Program.Textual (p : Program) : Prop := p.Uses Atom.Textual fun _ => True

def Continuation.Textual (k : Continuation) : Prop := ∀ f ∈ k, Program.Textual f.pending

theorem Continuation.Textual.enter {k : Continuation} (textual : k.Textual) {p : Program}
    (inside : p.Textual) (branch : Nat) : (k.enter branch p).Textual :=
  List.forall_mem_cons.2 ⟨fun n member => inside n (List.mem_reverse.1 member), textual⟩

def TextPhase.Fits (path : List (Option Component)) : TextPhase → Prop
  | .advancing k cursor => k.Textual ∧ cursor.encode.On path
  | .retreating => True

def TextChoicePoint.Fits (path : List (Option Component)) : TextChoicePoint → Prop
  | .longer cursor k => k.Textual ∧ cursor.encode.On path
  | .branches cursor k _ untried =>
    k.Textual ∧ (∀ p ∈ untried, Program.Textual p) ∧ cursor.encode.On path

/-- A search in bytes is in the same state as one in characters. -/
structure TextSearch.Mirrors (path : List (Option Component)) (s : TextSearch) (b : Search) :
    Prop where
  phase : b.phase = s.phase.encode
  choices : b.choices = s.choices.map TextChoicePoint.encode
  resumed : ∀ (place : List (Nat × Nat)) (c : TextCursor), c.encode.On path →
    b.resumed.contains (place, c.encode.position) = s.resumed.contains (place, c.position)
  here : s.phase.Fits path
  there : ∀ choice ∈ s.choices, choice.Fits path

inductive TextStep.Mirrors (path : List (Option Component)) : TextStep → Step → Prop
  | next {s b} (h : s.Mirrors path b) : Mirrors path (.next s) (.next b)
  | done (o) : Mirrors path (.done o) (.done o.encode)

section Mirrors

variable {path : List (Option Component)} {s : TextSearch} {b : Search}

theorem mirrors_start {p : Program} (textual : p.Textual) {c : TextCursor} (on : c.encode.On path) :
    (TextSearch.start p c).Mirrors path (Search.start p c.encode) where
  phase := rfl
  choices := rfl
  resumed := fun _ _ _ => by simp [TextSearch.start, Search.start]
  here := ⟨Continuation.Textual.enter (k := []) (by simp [Continuation.Textual]) textual 0, on⟩
  there := by simp [TextSearch.start]

theorem mirrors_phase (inv : s.Mirrors path b) {phase : TextPhase} (fits : phase.Fits path) :
    TextSearch.Mirrors path { s with phase } { b with phase := phase.encode } :=
  { inv with phase := rfl, here := fits }

theorem mirrors_pushThen (ceiling : Int) (inv : s.Mirrors path b) {choice : TextChoicePoint}
    {phase : TextPhase} (there : choice.Fits path) (here : phase.Fits path) :
    (s.pushThen ceiling choice phase).Mirrors path
      (b.pushThen ceiling choice.encode phase.encode) := by
  have size : b.choices.length = s.choices.length := by rw [inv.choices, List.length_map]
  unfold TextSearch.pushThen Search.pushThen
  rw [size]
  split
  · exact .done .ceilingReached
  · exact .next { inv with
      phase := rfl
      choices := by rw [inv.choices, List.map_cons]
      here
      there := List.forall_mem_cons.2 ⟨there, inv.there⟩ }

theorem mirrors_consume (ceiling : Int) (inv : s.Mirrors path b) {branch : Nat} {n : Node}
    {pending : List Node} {outer : Continuation} {c : TextCursor}
    (textual : Continuation.Textual (⟨branch, n :: pending⟩ :: outer)) (on : c.encode.On path) :
    (s.consume ceiling ⟨branch, n :: pending⟩ n pending outer c).Mirrors path
      (b.consume ceiling ⟨branch, n :: pending⟩ n pending outer c.encode) := by
  obtain ⟨inner, around⟩ := List.forall_mem_cons.1 textual
  obtain ⟨node, others⟩ := List.forall_mem_cons.1 inner
  have after : Continuation.Textual (⟨branch, pending⟩ :: outer) :=
    List.forall_mem_cons.2 ⟨others, around⟩
  cases n with
  | atom a =>
    have moves := TextCursor.move_encode (uses_atom.1 node) c
    simp only [TextSearch.consume, Search.consume, moves]
    cases moved : c.move a with
    | error e => exact .done (.fault (.tooManyDigits e))
    | ok d =>
      cases d with
      | none => exact .next (mirrors_phase inv trivial)
      | some d =>
        rw [moved] at moves
        exact .next (mirrors_phase inv ⟨after, on_move on moves⟩)
  | run crossing =>
    have drops := TextCursor.dropChar_encode crossing c
    simp only [TextSearch.consume, Search.consume, drops]
    cases dropped : c.dropChar crossing with
    | none => exact .next (mirrors_phase inv ⟨after, on⟩)
    | some longer =>
      rw [dropped] at drops
      exact mirrors_pushThen ceiling inv ⟨textual, on_dropChar on drops⟩ ⟨after, on⟩
  | choice branches =>
    have inside := uses_choice.1 node
    cases branches with
    | nil => exact .done (.fault .noBranch)
    | cons first others =>
      obtain ⟨here, there⟩ := List.forall_mem_cons.1 inside
      cases others with
      | nil => exact .next (mirrors_phase inv ⟨after.enter here 0, on⟩)
      | cons second others =>
        exact mirrors_pushThen ceiling inv ⟨after, there, on⟩ ⟨after.enter here 0, on⟩

theorem mirrors_resume (inv : s.Mirrors path b) {k : Continuation} {c : TextCursor}
    {choices : List TextChoicePoint} (textual : k.Textual) (on : c.encode.On path)
    (there : ∀ choice ∈ choices, choice.Fits path) :
    (s.resume k c choices).Mirrors path
      (b.resume true k c.encode (choices.map TextChoicePoint.encode)) := by
  unfold TextSearch.resume Search.resume
  simp only [Bool.true_and, inv.resumed _ _ on]
  split
  · exact { inv with phase := rfl, choices := rfl, here := trivial, there }
  · refine
      { phase := rfl, choices := rfl, resumed := fun place d here => ?_, here := ⟨textual, on⟩, there }
    have same : ((k.place, c.encode.position) == (place, d.encode.position)) =
        ((k.place, c.position) == (place, d.position)) := by
      have positions := TextCursor.position_iff on here
      rw [Bool.eq_iff_iff, beq_iff_eq, beq_iff_eq]
      constructor
      · intro visit
        obtain ⟨samePlace, samePosition⟩ := Prod.mk.inj visit
        rw [samePlace, positions.1 samePosition]
      · intro visit
        obtain ⟨samePlace, samePosition⟩ := Prod.mk.inj visit
        rw [samePlace, positions.2 samePosition]
    rw [Std.HashSet.contains_insert, Std.HashSet.contains_insert, same, inv.resumed place d here]

/-- The two searches take the same step. -/
theorem mirrors_step (ceiling : Int) (inv : s.Mirrors path b) :
    (s.step ceiling).Mirrors path (b.step true ceiling) := by
  obtain ⟨phase, choices, resumed⟩ := s
  obtain ⟨bytePhase, byteChoices, byteResumed⟩ := b
  obtain rfl : bytePhase = phase.encode := inv.phase
  obtain rfl : byteChoices = choices.map TextChoicePoint.encode := inv.choices
  match phase with
  | .advancing [] c => exact .done (.found c)
  | .advancing (⟨_, []⟩ :: outer) c =>
    obtain ⟨textual, on⟩ := inv.here
    exact .next (mirrors_phase inv ⟨(List.forall_mem_cons.1 textual).2, on⟩)
  | .advancing (⟨_, _ :: _⟩ :: _) _ => exact mirrors_consume ceiling inv inv.here.1 inv.here.2
  | .retreating =>
    match choices with
    | [] => exact .done .exhausted
    | .longer c k :: choices =>
      obtain ⟨⟨textual, on⟩, there⟩ := List.forall_mem_cons.1 inv.there
      exact .next (mirrors_resume inv textual on there)
    | .branches c k next [] :: choices =>
      exact .next { inv with choices := rfl, there := (List.forall_mem_cons.1 inv.there).2 }
    | .branches c k next [last] :: choices =>
      obtain ⟨⟨textual, inside, on⟩, there⟩ := List.forall_mem_cons.1 inv.there
      exact .next (mirrors_resume inv (textual.enter (inside last (by simp)) next) on there)
    | .branches c k next (p :: q :: more) :: choices =>
      obtain ⟨⟨textual, inside, on⟩, there⟩ := List.forall_mem_cons.1 inv.there
      obtain ⟨first, others⟩ := List.forall_mem_cons.1 inside
      have left : TextChoicePoint.Fits path (.branches c k (next + 1) (q :: more)) :=
        ⟨textual, others, on⟩
      exact .next
        (mirrors_resume inv (textual.enter first next) on (List.forall_mem_cons.2 ⟨left, there⟩))

theorem mirrors_run (ceiling : Int) (inv : s.Mirrors path b) :
    ∃ o, s.Ends ceiling o ∧ b.run true ceiling = o.encode := by
  fun_induction Search.run true ceiling b generalizing s with
  | case1 b o step =>
    have mirrored := mirrors_step ceiling inv
    rw [step] at mirrored
    cases here : s.step ceiling with
    | next t => rw [here] at mirrored; cases mirrored
    | done o' =>
      rw [here] at mirrored
      cases mirrored
      exact ⟨o', .done here, rfl⟩
  | case2 b t step ih =>
    have mirrored := mirrors_step ceiling inv
    rw [step] at mirrored
    cases here : s.step ceiling with
    | done o => rw [here] at mirrored; cases mirrored
    | next t' =>
      rw [here] at mirrored
      cases mirrored with
      | next inv' =>
        obtain ⟨o, ends, same⟩ := ih inv'
        exact ⟨o, .next here ends, same⟩

end Mirrors

/-! ## Bytes and characters -/

/-- Runs that stay below their ceilings end alike, whatever the ceilings are. -/
theorem evaluate_of_below {p : Program} {c : Cursor} {ceiling ceiling' : Int}
    (below : evaluate p c ceiling ≠ .ceilingReached)
    (below' : evaluate p c ceiling' ≠ .ceilingReached) :
    evaluate p c ceiling = evaluate p c ceiling' :=
  (runUnbounded_of_below below).symm.trans (runUnbounded_of_below below')

/-- Matching in bytes is matching in characters.  The last character of a component can be taken off
whatever the bytes before it are; and on a path of well-formed components, a program whose literals are
texts takes the same steps in the bytes as in the characters, to the same end.  So where neither search
reaches its ceiling, the one finds a match if and only if the other does. -/
theorem bytes_refine_characters :
    (∀ (bytes : List UInt8) (c : Char) (above : List (Option Component)),
      (Cursor.within (bytes ++ String.utf8EncodeChar c).reverse above).popChar =
          some (.within bytes.reverse above, c) ∧
        ∀ crossing : Bool,
          (Cursor.within (bytes ++ String.utf8EncodeChar c).reverse above).dropChar crossing =
            some (.within bytes.reverse above)) ∧
    ∀ (p : Program) (path : List Component), p.Textual →
      (∀ name ∈ path, Utf8.isWellFormed name = true) →
        ∃ texts : List Text, texts.map Utf8.encode = path ∧ ∀ reading : Reading,
          ∃ c, Cursor.start reading path = some c ∧
            (∀ ceiling : Int, ∃ o, (TextSearch.start p (.start texts)).Ends ceiling o ∧
              evaluate p c ceiling = o.encode) ∧
            ∀ ceiling ceiling' : Int, evaluate p c ceiling ≠ .ceilingReached →
              ¬ (TextSearch.start p (.start texts)).Ends ceiling' .ceilingReached →
                ((evaluate p c ceiling).isMatch = true ↔
                  ∃ d, (TextSearch.start p (.start texts)).Ends ceiling' (.found d)) := by
  refine ⟨fun bytes c above => ?_, fun p path textual readable => ?_⟩
  · rw [List.reverse_append]
    exact ⟨Cursor.popChar_encodeChar c _ above,
      fun crossing => Cursor.dropChar_encodeChar c _ above crossing⟩
  obtain ⟨texts, rfl⟩ := Utf8.exists_texts readable
  refine ⟨texts, rfl, fun reading => ⟨_, TextCursor.start_encode reading texts, ?_⟩⟩
  have ends (ceiling : Int) : ∃ o, (TextSearch.start p (.start texts)).Ends ceiling o ∧
      evaluate p (TextCursor.start texts).encode ceiling = o.encode :=
    mirrors_run ceiling (mirrors_start textual (on_start (TextCursor.start_encode reading texts)))
  refine ⟨ends, fun ceiling ceiling' below below' => ?_⟩
  obtain ⟨o, ended, same⟩ := ends ceiling'
  have low : evaluate p (TextCursor.start texts).encode ceiling' ≠ .ceilingReached := by
    rw [same]
    intro full
    cases o with
    | ceilingReached => exact below' ended
    | found | exhausted | fault => cases full
  rw [evaluate_of_below below low, same]
  cases o with
  | found d => exact ⟨fun _ => ⟨d, ended⟩, fun _ => rfl⟩
  | exhausted | ceilingReached | fault =>
    refine ⟨nofun, fun ⟨d, found⟩ => ?_⟩
    cases ended.unique found

def accents : Program :=
  [.boundary, .atom .anyChar, .symbol (.scalar 'é'), .atom (.number 1 9),
    .atom (.charClass (.ofList ['ü'.toNat]) true)]

theorem bytes_refine_characters_accents :
    accents.Textual ∧
      (∀ name ∈ [Utf8.encode "né7ü".toList], Utf8.isWellFormed name = true) ∧
      ∃ d, (TextSearch.start accents (.start ["né7ü".toList])).Ends 512 (.found d) := by
  have textual : accents.Textual := by
    simp [accents, Program.Textual, Program.Uses, Node.boundary, Node.symbol, Atom.Textual]
    exact ⟨['é'], rfl⟩
  have readable : ∀ name ∈ [Utf8.encode "né7ü".toList], Utf8.isWellFormed name = true := by
    intro name member
    exact Utf8.isWellFormed_iff.2 ⟨_, (List.mem_singleton.1 member).symm⟩
  have start : Cursor.start .raw [Utf8.encode "né7ü".toList] =
      some (.within [0xBC, 0xC3, 0x37, 0xA9, 0xC3, 0x6E] []) := rfl
  have found :
      evaluate accents (.within [0xBC, 0xC3, 0x37, 0xA9, 0xC3, 0x6E] []) 512 = .found .root := by
    decide +kernel
  obtain ⟨texts, same, search⟩ := bytes_refine_characters.2 accents _ textual readable
  obtain rfl : texts = ["né7ü".toList] :=
    List.map_injective_iff.2 (fun _ _ => Utf8.encode_injective) same
  obtain ⟨c, start', ends, _⟩ := search .raw
  cases start.symm.trans start'
  obtain ⟨o, ended, same⟩ := ends 512
  rw [found] at same
  cases o with
  | found d => exact ⟨textual, readable, d, ended⟩
  | exhausted | ceilingReached | fault => cases same

end EditorSettings
