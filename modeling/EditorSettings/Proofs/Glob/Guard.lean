import EditorSettings.Proofs.Glob.Exploration

/-! # The guard against revisits

A guarded search passes over a visit that it has resumed before.  What it passes over leads nowhere,
so a search without the guard would explore it in vain and come back to the same choice points, unless
the stack overflows on the way (`run_false_of_nowhere`).  The two searches therefore agree wherever
the plain one stays below the ceiling, down to the cursor that is left (`run_true_eq_run_false`).
-/

namespace EditorSettings

/-- Run a program against a cursor, resuming every visit as often as it is due. -/
def evaluatePlain (p : Program) (cursor : Cursor) (ceiling : Int) : Outcome :=
  (Search.start p cursor).run false ceiling

section Guard

variable {p : Program} {path : List (Option Component)}

/-- A plain search explores what leads nowhere and comes back to the choice points below it. -/
theorem run_false_of_nowhere (runnable : p.Runnable) (ceiling : Int) {phase : Phase}
    {top : List ChoicePoint} (bottom : List ChoicePoint) (resumed : Std.HashSet Visit)
    (here : phase.InPlace p path) (there : ∀ cp ∈ top, cp.InPlace p path)
    (nowhere : ∀ e, ¬ (phase.LeadsTo e ∨ AnyLeadsTo top e)) :
    Search.run false ceiling ⟨phase, top ++ bottom, resumed⟩ = .ceilingReached ∨
      ∃ resumed', Search.run false ceiling ⟨phase, top ++ bottom, resumed⟩ =
        Search.run false ceiling ⟨.retreating, bottom, resumed'⟩ := by
  -- by induction on what the part above `bottom` costs, for each step makes it cheaper
  generalize bound : Search.phaseCost phase + Search.choicesCost top = budget
  induction budget using Nat.strongRecOn generalizing phase top resumed with
  | ind budget ih =>
    subst bound
    cases phase with
    | advancing k c =>
      by_cases finished : k = []
      · subst finished
        exact absurd (.inl rfl) (nowhere c)
      · obtain ⟨phase, pushed, expands, steps⟩ := step_advancing runnable finished here
        have step := steps false ceiling (top ++ bottom) resumed
        split at step
        · exact .inl (Search.run_of_done step)
        · rw [Search.run_of_next step, ← List.append_assoc]
          refine ih _ ?_ resumed expands.here ?_ ?_ rfl
          · have cheaper := expands.cheaper
            rw [Search.choicesCost_append]
            show _ < Search.cost k c.rank + _
            omega
          · intro cp member
            exact (List.mem_append.1 member).elim (expands.there cp) (there cp)
          · intro e leads
            rw [anyLeadsTo_append, ← or_assoc, ← expands.leads_iff e] at leads
            exact nowhere e leads
    | retreating =>
      cases top with
      -- everything above is explored
      | nil => exact .inr ⟨resumed, rfl⟩
      | cons cp others =>
        obtain ⟨k, c, pushed, _, expands, resumes⟩ :=
          step_retreating (there cp List.mem_cons_self)
        have step := resumes false ceiling (others ++ bottom) resumed
        rw [List.cons_append, Search.run_of_next step, Bool.false_and, if_neg Bool.false_ne_true,
          ← List.append_assoc]
        refine ih _ ?_ _ expands.here ?_ ?_ rfl
        · have cheaper := expands.cheaper
          rw [Search.choicesCost_append, Search.choicesCost_cons]
          omega
        · intro cp' member
          obtain new | old := List.mem_append.1 member
          · exact expands.there cp' new
          · exact there cp' (List.mem_cons_of_mem cp old)
        · intro e leads
          rw [anyLeadsTo_append, ← or_assoc, ← expands.leads_iff e, ← anyLeadsTo_cons] at leads
          exact nowhere e (.inr leads)

/-- A guarded search ends as the plain one does, whatever that one has noted down. -/
theorem run_true_eq_run_false (runnable : p.Runnable) (ceiling : Int) {phase : Phase}
    {choices : List ChoicePoint} {resumed noted : Std.HashSet Visit}
    (inv : Search.Consistent p path ⟨phase, choices, resumed⟩)
    (below : Search.run false ceiling ⟨phase, choices, noted⟩ ≠ .ceilingReached) :
    Search.run true ceiling ⟨phase, choices, resumed⟩ =
      Search.run false ceiling ⟨phase, choices, noted⟩ := by
  -- by induction on the potential of the guarded search, which keeps the choice points of both
  generalize bound : Search.potential ⟨phase, choices, resumed⟩ = budget
  induction budget using Nat.strongRecOn generalizing phase choices resumed noted with
  | ind budget ih =>
    subst bound
    cases phase with
    | advancing k c =>
      by_cases finished : k = []
      · subst finished
        have done (guarded : Bool) (resumed : Std.HashSet Visit) :
            Search.run guarded ceiling ⟨.advancing [] c, choices, resumed⟩ = .found c :=
          Search.run_of_done rfl
        rw [done, done]
      · obtain ⟨phase, pushed, expands, steps⟩ := step_advancing runnable finished inv.phase
        have step := steps true ceiling choices resumed
        have plain := steps false ceiling choices noted
        -- the stacks are equal, so there is room in both or in neither
        split at step
        next full =>
          rw [if_pos full] at plain
          exact absurd (Search.run_of_done plain) below
        next room =>
          rw [if_neg room] at plain
          rw [Search.run_of_next plain] at below ⊢
          rw [Search.run_of_next step]
          exact ih _ (Search.potential_lt_of_step step) (consistent_step runnable inv step).1 below rfl
    | retreating =>
      cases choices with
      | nil =>
        have done (guarded : Bool) (resumed : Std.HashSet Visit) :
            Search.run guarded ceiling ⟨.retreating, [], resumed⟩ = .exhausted :=
          Search.run_of_done rfl
        rw [done, done]
      | cons cp choices =>
        obtain ⟨k, c, pushed, located, expands, resumes⟩ :=
          step_retreating (inv.choices cp List.mem_cons_self)
        have step := resumes true ceiling choices resumed
        have plain := resumes false ceiling choices noted
        have inv' := (consistent_step runnable inv step).1
        have less := Search.potential_lt_of_step step
        rw [Bool.false_and, if_neg Bool.false_ne_true] at plain
        rw [Search.run_of_next plain] at below ⊢
        rw [Search.run_of_next step]
        rw [Bool.true_and] at inv' less ⊢
        by_cases visited : resumed.contains (k.place, c.position) = true
        · rw [if_pos visited] at inv' less ⊢
          obtain ⟨whole, place⟩ := located
          have nowhere := (inv.resumed place expands.here.2 visited).refuted expands
          -- the plain search goes where the guarded one does not, and comes back
          rcases run_false_of_nowhere runnable ceiling (pushed ++ choices)
            (noted.insert (k.place, c.position)) expands.here (List.forall_mem_nil _)
            (fun e leads => nowhere e (leads.resolve_right anyLeadsTo_nil)) with full | ⟨noted', same⟩
          · exact absurd full below
          · rw [List.nil_append] at same
            rw [same] at below ⊢
            exact ih _ less inv' below rfl
        · rw [if_neg visited] at inv' less ⊢
          exact ih _ less inv' below rfl

end Guard

/-- The guard changes no answer: at a ceiling that the plain search does not reach, the guarded one
does not reach it either and ends in the same way, with the same cursor if there is a match. -/
theorem evaluate_eq_evaluatePlain {p : Program} (runnable : p.Runnable) {reading : Reading}
    {components : List Component} {c : Cursor}
    (start : Cursor.start reading components = some c) {ceiling : Int}
    (below : evaluatePlain p c ceiling ≠ .ceilingReached) :
    evaluate p c ceiling ≠ .ceilingReached ∧ evaluate p c ceiling = evaluatePlain p c ceiling := by
  have same : evaluate p c ceiling = evaluatePlain p c ceiling :=
    run_true_eq_run_false runnable ceiling (consistent_start (on_start start)) below
  exact ⟨same ▸ below, same⟩

theorem evaluate_eq_evaluatePlain_starsTwice :
    starsTwice.Runnable ∧ Cursor.start .raw [[97, 97, 97]] = some (.within [97, 97, 97] []) ∧
      evaluatePlain starsTwice (.within [97, 97, 97] []) 512 ≠ .ceilingReached ∧
      evaluate starsTwice (.within [97, 97, 97] []) 512 = .exhausted := by
  have start : Cursor.start .raw [[97, 97, 97]] = some (.within [97, 97, 97] []) := rfl
  have plain : evaluatePlain starsTwice (.within [97, 97, 97] []) 512 = .exhausted := by
    cbv
  have below : evaluatePlain starsTwice (.within [97, 97, 97] []) 512 ≠ .ceilingReached := by
    rw [plain]
    intro full
    cases full
  refine ⟨runnable_starsTwice, start, below, ?_⟩
  exact (evaluate_eq_evaluatePlain runnable_starsTwice start below).2.trans plain

end EditorSettings
