import Mathlib.Algebra.GroupWithZero.Nat
import Mathlib.Data.List.Induction
import Mathlib.Data.List.ProdSigma
import EditorSettings.Proofs.Glob.Exploration
import EditorSettings.Proofs.Glob.Load

/-! # How often a search resumes

A search is resumed in front of a run that has taken one more character, and in front of a branch that
it has not entered yet.  These places are the stops of a program: there is one for each of its runs and
one for each branch of its choices, at any depth (`length_programStops`).  A cursor on a path has one of
finitely many positions (`length_positions_le`), so there are only so many visits.

A guarded search notes down every visit that it resumes and resumes none that it has noted down
(`resumed_retreating`).  `within_step` keeps it at the stops of its program and on its path.
-/

namespace EditorSettings

/-! ## Counting nodes -/

mutual

/-- The sum of a weight over a node and the nodes at any depth of it. -/
def Node.total (weight : Node → Nat) : Node → Nat
  | .atom a => weight (.atom a)
  | .run crossing => weight (.run crossing)
  | .choice branches => weight (.choice branches) + branchesTotal weight branches

def programTotal (weight : Node → Nat) : List Node → Nat
  | [] => 0
  | n :: rest => n.total weight + programTotal weight rest

def branchesTotal (weight : Node → Nat) : List (List Node) → Nat
  | [] => 0
  | b :: rest => programTotal weight b + branchesTotal weight rest

end

def Node.runWeight : Node → Nat
  | .run _ => 1
  | .atom _ | .choice _ => 0

/-- One for each branch of a choice, whatever is in it. -/
def Node.branchWeight : Node → Nat
  | .choice branches => branches.length
  | .atom _ | .run _ => 0

/-- The number of runs in a program, at any depth. -/
def Program.runs (p : Program) : Nat := programTotal Node.runWeight p

/-- The number of branches of all choices in a program, at any depth. -/
def Program.branches (p : Program) : Nat := programTotal Node.branchWeight p

/-! ## Stops -/

mutual

/-- The stops in a node of the branch `number`, after `before` other nodes, with `outer` around it. -/
def Node.stops (number before : Nat) (outer : List (Nat × Nat)) : Node → List (List (Nat × Nat))
  | .atom _ => []
  | .run _ => [(number, before + 1) :: outer]
  | .choice branches => branchesStops 0 ((number, before) :: outer) branches

def programStops (number before : Nat) (outer : List (Nat × Nat)) :
    List Node → List (List (Nat × Nat))
  | [] => []
  | n :: rest => n.stops number before outer ++ programStops number (before + 1) outer rest

/-- The stops in branches, the first of which has a number: all of its nodes are left, or fewer. -/
def branchesStops (number : Nat) (outer : List (Nat × Nat)) :
    List (List Node) → List (List (Nat × Nat))
  | [] => []
  | b :: rest =>
    ((number, b.length) :: outer) ::
      (programStops number 0 outer b ++ branchesStops (number + 1) outer rest)

end

mutual

theorem Node.length_stops (number before : Nat) (outer : List (Nat × Nat)) (n : Node) :
    (n.stops number before outer).length = n.total Node.runWeight + n.total Node.branchWeight := by
  cases n with
  | atom a => rfl
  | run crossing => rfl
  | choice branches =>
    have inside := length_branchesStops 0 ((number, before) :: outer) branches
    simp only [Node.stops, Node.total, Node.runWeight, Node.branchWeight]
    omega

theorem length_programStops (number before : Nat) (outer : List (Nat × Nat)) (p : List Node) :
    (programStops number before outer p).length =
      programTotal Node.runWeight p + programTotal Node.branchWeight p := by
  cases p with
  | nil => rfl
  | cons n rest =>
    have here := n.length_stops number before outer
    have later := length_programStops number (before + 1) outer rest
    simp only [programStops, programTotal, List.length_append]
    omega

theorem length_branchesStops (number : Nat) (outer : List (Nat × Nat)) (branches : List (List Node)) :
    (branchesStops number outer branches).length =
      branches.length + (branchesTotal Node.runWeight branches + branchesTotal Node.branchWeight branches) := by
  cases branches with
  | nil => rfl
  | cons b rest =>
    have here := length_programStops number 0 outer b
    have later := length_branchesStops (number + 1) outer rest
    simp only [branchesStops, branchesTotal, List.length_cons, List.length_append]
    omega

end

theorem programStops_append (number before : Nat) (outer : List (Nat × Nat)) (p q : List Node) :
    programStops number before outer (p ++ q) =
      programStops number before outer p ++ programStops number (before + p.length) outer q := by
  induction p generalizing before with
  | nil => rfl
  | cons n p ih =>
    simp only [List.cons_append, programStops, ih, List.append_assoc, List.length_cons]
    congr 3
    omega

def Continuation.stops : Continuation → List (List (Nat × Nat))
  | [] => []
  | f :: outer => programStops f.branch 0 (Continuation.place outer) f.pending.reverse ++ stops outer

theorem place_cons (f : Frame) (outer : Continuation) :
    Continuation.place (f :: outer) = (f.branch, f.pending.length) :: outer.place := rfl

theorem place_enter (number : Nat) (p : Program) (k : Continuation) :
    (k.enter number p).place = (number, p.length) :: k.place := by
  simp [Continuation.enter, place_cons]

theorem stops_enter (number : Nat) (p : Program) (k : Continuation) :
    (k.enter number p).stops = programStops number 0 k.place p ++ k.stops := by
  simp [Continuation.enter, Continuation.stops]

/-- The next node has stops of its own, and those of what comes after it stay. -/
theorem stops_cons_subset {number : Nat} {n : Node} {pending : List Node} {outer : Continuation}
    {stops : List (List (Nat × Nat))}
    (h : Continuation.stops (⟨number, n :: pending⟩ :: outer) ⊆ stops) :
    n.stops number pending.length outer.place ⊆ stops ∧
      Continuation.stops (⟨number, pending⟩ :: outer) ⊆ stops := by
  simp only [Continuation.stops, List.reverse_cons, programStops_append, programStops,
    List.length_reverse, Nat.zero_add, List.append_nil, List.append_subset] at h ⊢
  exact ⟨h.1.2, h.1.1, h.2⟩

/-! ## Positions -/

namespace Cursor

/-- The positions on a path whose components are given, the nearest to its end first. -/
def positions : List (Option Component) → List (Int × Nat)
  | [] => [(-1, 0)]
  | none :: above => positions above
  | some name :: above =>
    (List.range (name.length + 1)).map (fun left => ((above.length : Int), left)) ++ positions above

theorem position_root_mem (path : List (Option Component)) : root.position ∈ positions path := by
  induction path with
  | nil => exact List.mem_cons_self
  | cons first path ih =>
    cases first with
    | none => exact ih
    | some name => exact List.mem_append_right _ ih

theorem position_mem {path : List (Option Component)} {c : Cursor} (on : c.On path) :
    c.position ∈ positions path := by
  cases c with
  | root => exact position_root_mem path
  | within left above =>
    obtain ⟨name, here, kept⟩ := on
    induction path with
    | nil => simp at here
    | cons first path ih =>
      obtain same | later := List.suffix_cons_iff.1 here
      · cases same
        have shorter := kept.length_le
        rw [List.length_reverse] at shorter
        apply List.mem_append_left
        exact List.mem_map.2 ⟨left.length, List.mem_range.2 (Nat.lt_succ_of_le shorter), rfl⟩
      · cases first with
        | none => exact ih later
        | some _ => exact List.mem_append_right _ (ih later)

/-- A path has one position for each byte and each end of a component, and the root. -/
theorem length_positions_le (reading : Reading) (components : List Component) :
    (positions (components.map reading.read).reverse).length ≤
      1 + (components.map fun name => name.length + 1).sum := by
  induction components using List.reverseRecOn with
  | nil => exact Nat.le_refl 1
  | append_singleton upper name ih =>
    have split : ((upper ++ [name]).map reading.read).reverse =
        reading.read name :: (upper.map reading.read).reverse := by
      simp
    rw [split, List.map_append, List.sum_append, List.map_singleton, List.sum_singleton]
    cases read : reading.read name with
    | none =>
      simp only [positions]
      omega
    | some bytes =>
      have same : bytes = name := by
        cases reading with
        | raw => exact (Option.some.inj read).symm
        | utf8 =>
          simp only [Reading.read, Option.ite_none_right_eq_some] at read
          exact (Option.some.inj read.2).symm
      subst same
      simp only [positions, List.length_append, List.length_map, List.length_range]
      omega

end Cursor

/-! ## Searches at their stops -/

section Within

variable {stops : List (List (Nat × Nat))} {path : List (Option Component)}

def Phase.Within (stops : List (List (Nat × Nat))) (path : List (Option Component)) : Phase → Prop
  | .advancing k cursor => k.stops ⊆ stops ∧ cursor.On path
  | .retreating => True

/-- A choice point is at a stop, has no other stops to come and is on a path. -/
def ChoicePoint.Within (stops : List (List (Nat × Nat))) (path : List (Option Component)) :
    ChoicePoint → Prop
  | .longer cursor k => k.place ∈ stops ∧ k.stops ⊆ stops ∧ cursor.On path
  | .branches cursor k next untried =>
    branchesStops next k.place untried ⊆ stops ∧ k.stops ⊆ stops ∧ cursor.On path

/-- A search is only ever resumed at the stops, and on a path. -/
structure Search.Within (stops : List (List (Nat × Nat))) (path : List (Option Component))
    (s : Search) : Prop where
  phase : s.phase.Within stops path
  choices : ∀ cp ∈ s.choices, cp.Within stops path
  resumed : ∀ visit ∈ s.resumed, visit.1 ∈ stops ∧ visit.2 ∈ Cursor.positions path

theorem within_start {p : Program} {c : Cursor} (on : c.On path) :
    (Search.start p c).Within (programStops 0 0 [] p) path where
  phase := by
    refine ⟨?_, on⟩
    rw [stops_enter]
    exact List.append_subset.2 ⟨List.Subset.refl _, List.nil_subset _⟩
  choices := by simp [Search.start]
  resumed := by simp [Search.start]

theorem within_pushThen {ceiling : Int} {s t : Search} {choice : ChoicePoint} {phase : Phase}
    (inv : s.Within stops path) (here : phase.Within stops path) (there : choice.Within stops path)
    (h : s.pushThen ceiling choice phase = .next t) : t.Within stops path := by
  unfold Search.pushThen at h
  split at h
  · cases h
  · cases h
    exact ⟨here, List.forall_mem_cons.2 ⟨there, inv.choices⟩, inv.resumed⟩

theorem within_consume {ceiling : Int} {s t : Search} {branch : Nat} {n : Node}
    {pending : List Node} {outer : Continuation} {c : Cursor} (inv : s.Within stops path)
    (all : Continuation.stops (⟨branch, n :: pending⟩ :: outer) ⊆ stops) (on : c.On path)
    (h : s.consume ceiling ⟨branch, n :: pending⟩ n pending outer c = .next t) :
    t.Within stops path := by
  obtain ⟨here, later⟩ := stops_cons_subset all
  unfold Search.consume at h
  simp only at h
  split at h
  next a =>
    split at h
    · cases h
    · cases h
      exact ⟨trivial, inv.choices, inv.resumed⟩
    next moved move =>
      cases h
      exact ⟨⟨later, on_move on move⟩, inv.choices, inv.resumed⟩
  next crossing =>
    split at h
    · cases h
      exact ⟨⟨later, on⟩, inv.choices, inv.resumed⟩
    -- the search will be resumed in front of the run itself
    next longer drop =>
      have first : Phase.Within stops path (.advancing (⟨branch, pending⟩ :: outer) c) := ⟨later, on⟩
      have again : ChoicePoint.Within stops path
          (.longer longer (⟨branch, .run crossing :: pending⟩ :: outer)) :=
        ⟨here List.mem_cons_self, all, on_dropChar on drop⟩
      exact within_pushThen inv first again h
  · cases h
  next only =>
    cases h
    refine ⟨⟨?_, on⟩, inv.choices, inv.resumed⟩
    simp only [Node.stops, branchesStops, List.cons_subset, List.append_subset] at here
    rw [stops_enter, List.append_subset]
    exact ⟨here.2.1, later⟩
  next first second others =>
    rw [Node.stops, branchesStops, List.cons_subset, List.append_subset] at here
    have entered : Phase.Within stops path
        (.advancing (Continuation.enter 0 first (⟨branch, pending⟩ :: outer)) c) := by
      refine ⟨?_, on⟩
      rw [stops_enter, List.append_subset]
      exact ⟨here.2.1, later⟩
    have others : ChoicePoint.Within stops path
        (.branches c (⟨branch, pending⟩ :: outer) 1 (second :: others)) :=
      ⟨here.2.2, later, on⟩
    exact within_pushThen inv entered others h

theorem within_resume (guarded : Bool) {s : Search} {k : Continuation} {c : Cursor}
    {choices : List ChoicePoint} (resumed : ∀ visit ∈ s.resumed,
      visit.1 ∈ stops ∧ visit.2 ∈ Cursor.positions path)
    (place : k.place ∈ stops) (all : k.stops ⊆ stops) (on : c.On path)
    (there : ∀ cp ∈ choices, cp.Within stops path) :
    (s.resume guarded k c choices).Within stops path := by
  unfold Search.resume
  simp only
  split
  · exact ⟨trivial, there, resumed⟩
  · refine ⟨⟨all, on⟩, there, fun visit member => ?_⟩
    obtain same | old := Std.HashSet.mem_insert.1 member
    · rw [← eq_of_beq same]
      exact ⟨place, Cursor.position_mem on⟩
    · exact resumed visit old

theorem within_step {guarded : Bool} {ceiling : Int} {s t : Search} (inv : s.Within stops path)
    (h : s.step guarded ceiling = .next t) : t.Within stops path := by
  obtain ⟨phase, choices, resumed⟩ := s
  unfold Search.step at h
  split at h
  · cases h
  next outer cursor hp =>
    cases h; cases hp
    exact ⟨inv.phase, inv.choices, inv.resumed⟩
  next hp =>
    cases hp
    exact within_consume inv inv.phase.1 inv.phase.2 h
  next hp =>
    cases hp
    simp only at h
    split at h
    · cases h
    next cursor k choices =>
      cases h
      obtain ⟨⟨place, all, on⟩, others⟩ := List.forall_mem_cons.1 inv.choices
      exact within_resume guarded inv.resumed place all on others
    next choices =>
      cases h
      exact ⟨trivial, (List.forall_mem_cons.1 inv.choices).2, inv.resumed⟩
    next cursor k next last choices =>
      cases h
      obtain ⟨⟨here, all, on⟩, others⟩ := List.forall_mem_cons.1 inv.choices
      simp only [branchesStops, List.cons_subset, List.append_subset] at here
      refine within_resume guarded inv.resumed ?_ ?_ on others
      · rw [place_enter]
        exact here.1
      · rw [stops_enter, List.append_subset]
        exact ⟨here.2.1, all⟩
    next cursor k next p q more choices =>
      cases h
      obtain ⟨⟨here, all, on⟩, others⟩ := List.forall_mem_cons.1 inv.choices
      rw [branchesStops, List.cons_subset, List.append_subset] at here
      refine within_resume guarded inv.resumed ?_ ?_ on ?_
      · rw [place_enter]
        exact here.1
      · rw [stops_enter, List.append_subset]
        exact ⟨here.2.1, all⟩
      · exact List.forall_mem_cons.2 ⟨⟨here.2.2, all, on⟩, others⟩

theorem within_reaches {guarded : Bool} {ceiling : Int} {s t : Search} (inv : s.Within stops path)
    (reached : s.Reaches guarded ceiling t) : t.Within stops path := by
  induction reached with
  | refl => exact inv
  | tail _ step ih => exact within_step ih step

/-- So it resumes no more visits than there are stops and positions. -/
theorem Search.Within.size_le {s : Search} (inv : s.Within stops path) :
    s.resumed.size ≤ stops.length * (Cursor.positions path).length := by
  have nodup : s.resumed.toList.Nodup := by
    have distinct := s.resumed.distinct_toList
    exact List.nodup_iff_pairwise_ne.2 (distinct.imp fun h => by simpa using h)
  have subset : s.resumed.toList ⊆ stops ×ˢ Cursor.positions path := by
    intro visit member
    exact List.mem_product.2 (inv.resumed visit (Std.HashSet.mem_toList.1 member))
  have count := nodup.length_le_of_subset subset
  rwa [Std.HashSet.length_toList, List.length_product] at count

end Within

/-! ## Resuming -/

theorem resumed_pushThen {ceiling : Int} {s t : Search} {choice : ChoicePoint} {phase : Phase}
    (h : s.pushThen ceiling choice phase = .next t) : t.resumed = s.resumed := by
  unfold Search.pushThen at h
  split at h
  · cases h
  · cases h
    rfl

theorem resumed_consume {ceiling : Int} {s t : Search} {f : Frame} {n : Node} {pending : List Node}
    {outer : Continuation} {c : Cursor} (h : s.consume ceiling f n pending outer c = .next t) :
    t.resumed = s.resumed := by
  unfold Search.consume at h
  simp only at h
  split at h
  · split at h
    · cases h
    · cases h
      rfl
    · cases h
      rfl
  · split at h
    · cases h
      rfl
    · exact resumed_pushThen h
  · cases h
  · cases h
    rfl
  · exact resumed_pushThen h

/-- A search goes on with what is left to do at a visit that it has not noted down, and notes it down. -/
def Search.Resumed (s t : Search) (k : Continuation) (c : Cursor) : Prop :=
  t.phase = .advancing k c ∧ (k.place, c.position) ∉ s.resumed ∧
    t.resumed = s.resumed.insert (k.place, c.position)

theorem resumed_resume (s : Search) (k : Continuation) (c : Cursor) (choices : List ChoicePoint) :
    ((s.resume true k c choices).phase = .retreating ∧
        (s.resume true k c choices).resumed = s.resumed) ∨
      s.Resumed (s.resume true k c choices) k c := by
  unfold Search.resume
  simp only [Bool.true_and]
  split
  · exact .inl ⟨rfl, rfl⟩
  next new => exact .inr ⟨rfl, by simpa using new, rfl⟩

/-- Going back, a guarded search resumes a new visit or goes further back. -/
theorem resumed_retreating {ceiling : Int} {s t : Search} (back : s.phase = .retreating)
    (h : s.step true ceiling = .next t) :
    (t.phase = .retreating ∧ t.resumed = s.resumed) ∨ ∃ k c, s.Resumed t k c := by
  obtain ⟨phase, choices, resumed⟩ := s
  cases back
  unfold Search.step at h
  simp only at h
  split at h
  · cases h
  · cases h
    exact (resumed_resume _ _ _ _).imp_right fun resumed => ⟨_, _, resumed⟩
  · cases h
    exact .inl ⟨rfl, rfl⟩
  · cases h
    exact (resumed_resume _ _ _ _).imp_right fun resumed => ⟨_, _, resumed⟩
  · cases h
    exact (resumed_resume _ _ _ _).imp_right fun resumed => ⟨_, _, resumed⟩

theorem resumed_advancing {ceiling : Int} {s t : Search} (on : s.phase ≠ .retreating)
    (h : s.step true ceiling = .next t) : t.resumed = s.resumed := by
  obtain ⟨phase, choices, resumed⟩ := s
  unfold Search.step at h
  split at h
  · cases h
  · cases h
    rfl
  next hp =>
    cases hp
    exact resumed_consume h
  next hp => exact absurd hp on

theorem mem_resumed_step {ceiling : Int} {s t : Search} {visit : Visit} (member : visit ∈ s.resumed)
    (h : s.step true ceiling = .next t) : visit ∈ t.resumed := by
  by_cases back : s.phase = .retreating
  · obtain ⟨_, same⟩ | ⟨k, c, _, _, more⟩ := resumed_retreating back h
    · exact same ▸ member
    · rw [more]
      exact Std.HashSet.mem_insert.2 (.inr member)
  · exact resumed_advancing back h ▸ member

theorem mem_resumed_reaches {ceiling : Int} {s t : Search} {visit : Visit}
    (member : visit ∈ s.resumed) (reached : s.Reaches true ceiling t) : visit ∈ t.resumed := by
  induction reached with
  | refl => exact member
  | tail _ step ih => exact mem_resumed_step ih step

/-- Going back from the first of two states leads to the second, which goes on from a choice point with
what is left to do there. -/
structure Search.Resumes (ceiling : Int) (s : Search) (k : Continuation) (c : Cursor) (t : Search) :
    Prop where
  back : s.phase = .retreating
  step : s.step true ceiling = .next t
  on : t.phase = .advancing k c

theorem Search.Resumes.resumed {ceiling : Int} {s t : Search} {k : Continuation} {c : Cursor}
    (h : s.Resumes ceiling k c t) : s.Resumed t k c := by
  obtain ⟨back, step, on⟩ := h
  obtain ⟨further, _⟩ | ⟨k', c', resumed⟩ := resumed_retreating back step
  · cases further.symm.trans on
  · cases resumed.1.symm.trans on
    exact resumed

/-! ## Runs -/

theorem reaches_run (guarded : Bool) (ceiling : Int) (s : Search) :
    ∃ t, s.Reaches guarded ceiling t ∧ t.step guarded ceiling = .done (s.run guarded ceiling) := by
  fun_induction Search.run guarded ceiling s with
  | case1 s o step => exact ⟨s, .refl, step⟩
  | case2 s t step ih =>
    obtain ⟨last, reached, done⟩ := ih
    exact ⟨last, .head step reached, done⟩

/-- A search comes to an end, and on its way there it resumes each visit at most once.  So it never
notes down more visits than its program has runs and branches, times the positions on the path. -/
theorem search_resumes_each_visit_once {p : Program} (runnable : p.Runnable) {reading : Reading}
    {components : List Component} {c : Cursor}
    (start : Cursor.start reading components = some c) (ceiling : Int) :
    (∃ last o, (Search.start p c).Reaches true ceiling last ∧ last.step true ceiling = .done o ∧
      evaluate p c ceiling = o ∧ ∀ f, o ≠ .fault f) ∧
    ∀ s, (Search.start p c).Reaches true ceiling s →
      s.resumed.size ≤
        (p.runs + p.branches) * (1 + (components.map fun name => name.length + 1).sum) ∧
      ∀ k d t, s.Resumes ceiling k d t → ∀ s' k' d' t', t.Reaches true ceiling s' →
        s'.Resumes ceiling k' d' t' → (k'.place, d'.position) ≠ (k.place, d.position) := by
  have on := on_start start
  constructor
  · obtain ⟨last, reached, done⟩ := reaches_run true ceiling (Search.start p c)
    refine ⟨last, evaluate p c ceiling, reached, done, rfl, fun f fault => ?_⟩
    have answers := answers_evaluate runnable start ceiling
    rw [fault] at answers
    exact answers
  · intro s reached
    refine ⟨?_, ?_⟩
    · have size := (within_reaches (within_start on) reached).size_le
      rw [length_programStops] at size
      exact Nat.le_trans size (Nat.mul_le_mul_left _ (Cursor.length_positions_le reading components))
    · rintro k d t first s' k' d' t' later second same
      obtain ⟨_, _, noted⟩ := first.resumed
      have member : (k.place, d.position) ∈ t.resumed := by
        rw [noted]
        exact Std.HashSet.mem_insert_self
      exact second.resumed.2.1 (same ▸ mem_resumed_reaches member later)

def starOrB : Program :=
  [.boundary, .choice [[.run false, .symbol (.scalar 'a')], [.symbol (.scalar 'b'), .run false]]]

theorem search_resumes_each_visit_once_starOrB :
    starOrB.Runnable ∧ Cursor.start .raw [[99]] = some (.within [99] []) ∧
      (∃ last, (Search.start starOrB (.within [99] [])).Reaches true 512 last ∧
        last.step true 512 = .done .exhausted) ∧
      ∃ s k d t s' k' d' t', (Search.start starOrB (.within [99] [])).Reaches true 512 s ∧
        s.Resumes 512 k d t ∧ t.Reaches true 512 s' ∧ s'.Resumes 512 k' d' t' ∧
        t'.resumed.size ≤ 12 ∧ (k'.place, d'.position) ≠ (k.place, d.position) := by
  have runnable : starOrB.Runnable := by
    simp [starOrB, Program.Runnable, Program.Every, every_choice, Node.symbol, Node.boundary,
      Atom.Runnable]
  have start : Cursor.start .raw [[99]] = some (.within [99] []) := rfl
  obtain ⟨⟨last, o, reached, done, outcome, -⟩, bounded⟩ :=
    search_resumes_each_visit_once runnable start 512
  have exhausted : evaluate starOrB (.within [99] []) 512 = .exhausted := by
    cbv
  -- the second branch is entered, and then its run is gone on with where it starts
  let k : Continuation := Continuation.enter 1 [.symbol (.scalar 'b'), .run false] [⟨0, [.boundary]⟩]
  let t : Search :=
    ⟨.advancing k (.within [99] []), [], (∅ : Std.HashSet Visit).insert (k.place, (0, 1))⟩
  obtain ⟨s, before, first⟩ : ∃ s, (Search.start starOrB (.within [99] [])).Reaches true 512 s ∧
      s.Resumes 512 k (.within [99] []) t := by
    refine ⟨_, .head rfl (.single rfl), rfl, ?_, rfl⟩
    simp [Search.step, Search.resume, Search.start, Cursor.position, Cursor.index, Cursor.partLength,
      t, k]
  obtain ⟨s', t', between, second⟩ : ∃ s' t', t.Reaches true 512 s' ∧
      s'.Resumes 512 k (.within [] []) t' := by
    refine ⟨_, ⟨.advancing k (.within [] []), [], t.resumed.insert (k.place, (0, 0))⟩,
      .head rfl (.single rfl), rfl, ?_, rfl⟩
    simp [Search.step, Search.resume, Cursor.position, Cursor.index, Cursor.partLength,
      Continuation.enter, Continuation.place, Cursor.lastCharWidth, t, k]
  have size := (bounded t' ((before.tail first.step).trans (between.tail second.step))).1
  refine ⟨runnable, start, ⟨last, reached, by rw [done, ← outcome, exhausted]⟩, ?_⟩
  exact ⟨s, k, .within [99] [], t, s', k, .within [] [], t', before, first, between, second, size,
    (bounded s before).2 k _ t first s' k _ t' between second⟩

end EditorSettings
