import EditorSettings.Glob.Basic
import EditorSettings.Proofs.Glob.Demand

/-! # The ceiling

A pattern has no more tokens than symbols, the boundary in front apart, and its program loads a search
with at most half as many choice points.  So a search never holds more of them than half the symbols of
its pattern, and the default ceiling is enough for every pattern of 1024 symbols
(`ceiling_out_of_reach`).

A search that reaches its ceiling has found nothing, and one that does not answers as it would below a
higher ceiling (`higher_ceiling_keeps_answers`).
-/

namespace EditorSettings

/-! ## Tokens -/

namespace Token

theorem length_ofClass_le (inclusive : Bool) (members : CodeSet) :
    (ofClass inclusive members).length ≤ 2 := by
  unfold ofClass
  simp only
  split
  · split <;> simp
  · split <;> simp

theorem length_readClass {s : List Symbol} {read : List Token × List Symbol}
    (h : readClass s = some read) : read.1.length + read.2.length ≤ s.length + 1 := by
  obtain ⟨ranges, reads, rfl⟩ := Option.map_eq_some_iff.1 h
  have shorter := length_classRanges_lt reads
  have tokens := length_ofClass_le (!decide (s.head? = some (.scalar '!'))) (CodeSet.ofRanges ranges.1)
  have tail : s.tail.length ≤ s.length := by simp
  simp only
  split at shorter <;> omega

theorem length_readToken {s : Symbol} {rest : List Symbol} {read : List Token × List Symbol}
    (h : readToken s rest = .ok read) : read.1.length + read.2.length ≤ rest.length + 1 := by
  unfold readToken at h
  split at h
  · cases h
    cases rest with
    | nil => simp
    | cons _ _ => simp; omega
  split at h
  · cases h
    simp; omega
  split at h
  · split at h
    · cases h
      simp; omega
    · cases h
      simp; omega
  split at h
  · cases h
    cases class? : readClass rest with
    | none => simp; omega
    | some read => exact length_readClass class?
  split at h
  · split at h
    · cases h
      simp; omega
    next bounds =>
      split at h
      · cases h
      · cases h
        have := length_readBounds_le bounds
        simp; omega
  split at h
  · cases h
    simp; omega
  split at h
  · cases h
    simp; omega
  · cases h
    simp; omega

theorem length_segmentTokens_le {segment : List Symbol} {tokens : List Token}
    (h : segmentTokens segment = .ok tokens) : tokens.length ≤ segment.length := by
  fun_induction segmentTokens segment generalizing tokens with
  | case1 =>
    cases h
    exact Nat.le_refl _
  | case2 => cases h
  | case3 => cases h
  | case4 s rest first rest' read more reads ih =>
    cases h
    have here : first.length + rest'.length ≤ rest.length + 1 := length_readToken read
    have later := ih reads
    simp only [List.length_append, List.length_cons]
    omega

theorem length_segmentsTokens_le {segments : List (List Symbol)} {tokens : List Token}
    (h : segmentsTokens segments = .ok tokens) :
    tokens.length ≤ (segments.map fun segment => segment.length + 1).sum := by
  fun_induction segmentsTokens segments generalizing tokens with
  | case1 =>
    cases h
    exact Nat.le_refl _
  | case2 => cases h
  | case3 => cases h
  | case4 segment rest first reads more reads' ih =>
    cases h
    have here := length_segmentTokens_le reads
    have later := ih reads'
    simp only [List.length_append, List.length_cons, List.map_cons, List.sum_cons]
    omega

/-- A pattern has at most one token for each symbol, and the boundary in front. -/
theorem length_patternTokens_le {pattern : List Symbol} {tokens : List Token}
    (h : patternTokens pattern = .ok tokens) : tokens.length ≤ pattern.length + 1 := by
  exact sum_length_splitOn (.scalar '/') pattern ▸ length_segmentsTokens_le h

end Token

/-! ## Compiled programs -/

/-- The program of a pattern loads a search with half its symbols at most. -/
theorem load_writtenOf {pattern : List Symbol} {tokens : List Token}
    (read : Token.patternTokens pattern = .ok tokens) :
    programLoad (writtenOf true tokens) ≤ (pattern.length + 1) / 2 := by
  obtain ⟨rest, starts, _⟩ := (rooted_writtenOf read true).starts
  obtain ⟨more, rfl, fits⟩ := Token.fits_patternTokens read
  have count := Token.length_patternTokens_le read
  have price := price_feedAll (Draft.start.feed true .boundary) fits
  have front : (Draft.start.feed true .boundary).price = 1 := rfl
  have paid : demand (writtenOf true (.boundary :: more)) ≤ _ :=
    demand_finish ((Draft.start.feed true .boundary).feedAll true more)
  rw [starts] at paid ⊢
  have eq := demand_eq (List.cons_ne_nil Node.boundary rest)
  have first : runCount (List.head? (.boundary :: rest)) = 0 := rfl
  have last := runCount_le (List.getLast? (.boundary :: rest))
  rw [List.length_cons] at count
  omega

theorem opening_start {p : Program} (last : p.getLast? = some .boundary) (c : Cursor) :
    (Search.start (p ++ [.run false]) c).Opening p.dropLast.reverse := by
  have order : p.reverse = Node.boundary :: p.dropLast.reverse := by
    conv_lhs => rw [← List.dropLast_append_getLast? _ last]
    exact List.reverse_concat
  rw [Search.start, Continuation.enter, List.reverse_append, order]
  exact .first

/-- A search for a compiled pattern holds no more choice points than half the symbols. -/
theorem modest_compile {pattern : List Symbol} {p : Program} (compiled : compile true pattern = .ok p)
    (c : Cursor) : (Search.start p c).Modest (max 1 ((pattern.length + 1) / 2)) := by
  cases read : Token.patternTokens pattern with
  | error e => simp [compile, read] at compiled
  | ok tokens =>
    cases (compile_of_tokens read true).symm.trans compiled
    have load := load_writtenOf read
    obtain ⟨rest, starts, _⟩ := (rooted_writtenOf read true).starts
    rw [starts] at load
    -- the node in front is a boundary or the root, and neither keeps a choice point
    obtain ⟨a, front⟩ : ∃ a, (if .scalar '/' ∈ pattern then anchored (.boundary :: rest)
        else .boundary :: rest) = .atom a :: rest := by
      split
      · exact ⟨.root, rfl⟩
      · exact ⟨.boundary, rfl⟩
    have same : programLoad (.atom a :: rest) = programLoad (.boundary :: rest) := rfl
    rw [endedAs, starts, front, withLastComponent]
    split
    next last =>
      have whole : programLoad (.atom a :: rest) = _ :=
        congrArg programLoad (List.dropLast_append_getLast? _ last).symm
      rw [programLoad_append] at whole
      refine .inr ⟨by omega, _, ?_, opening_start last c⟩
      rw [programLoad_reverse]
      omega
    · exact .inl ((holds_start _ c).mono (by omega))

/-! ## Ceilings out of reach -/

/-- Whatever a pattern is matched against, the search holds no more choice points than half the symbols
of the pattern, or one.  So no pattern of 1024 symbols reaches the default ceiling, and it matches what
it would match without one. -/
theorem ceiling_out_of_reach :
    (∀ (pattern : List Symbol) (p : Program), compile true pattern = .ok p → ∀ c : Cursor,
      (∀ (ceiling : Int) (s : Search), (Search.start p c).Reaches true ceiling s →
        s.choices.length ≤ max 1 ((pattern.length + 1) / 2)) ∧
      ∀ ceiling : Int, max 1 ((pattern.length + 1) / 2) ≤ ceiling →
        evaluate p c ceiling ≠ .ceilingReached ∧ evaluate p c ceiling = evaluateUnbounded p c) ∧
    ∀ (pattern : List Symbol) (g : Glob), pattern.length ≤ 1024 → Glob.compile pattern = .ok g →
      ∀ (reading : Reading) (path : List Component),
        g.outcome? reading path ≠ some .ceilingReached ∧
          g.outcome? reading path = (Cursor.start reading path).map (evaluateUnbounded g.program) := by
  have enough {pattern : List Symbol} {p : Program} (compiled : compile true pattern = .ok p)
      (c : Cursor) {ceiling : Int} (le : max 1 ((pattern.length + 1) / 2) ≤ ceiling) :
      evaluate p c ceiling ≠ .ceilingReached ∧ evaluate p c ceiling = evaluateUnbounded p c := by
    have below : evaluate p c ceiling ≠ .ceilingReached :=
      modest_run (by omega) (modest_compile compiled c)
    exact ⟨below, (runUnbounded_of_below below).symm⟩
  refine ⟨fun pattern p compiled c => ⟨fun ceiling s reached => ?_, fun ceiling le => ?_⟩,
    fun pattern g short made reading path => ?_⟩
  · exact (modest_reaches (modest_compile compiled c) reached).length_le
  · exact enough compiled c le
  · obtain ⟨compiled, ceiling⟩ := Glob.compile_of_compileWith made
    cases start : Cursor.start reading path with
    | none => simp [Glob.outcome?, start]
    | some c =>
      have room : max 1 ((pattern.length + 1) / 2) ≤ g.ceiling := by
        rw [ceiling, Glob.defaultCeiling]
        omega
      obtain ⟨below, same⟩ := enough compiled c room
      rw [Glob.outcome?_of_start start]
      exact ⟨by simpa using below, by rw [same, Option.map_some]⟩

def nestedStars : Glob where
  pattern := Symbol.ofText "*{*,a}*".toList
  program := [.boundary, .run false, .choice [[.run false], [.symbol (.scalar 'a')]], .run false]
  ceiling := Glob.defaultCeiling

theorem ceiling_out_of_reach_nestedStars :
    Glob.compile nestedStars.pattern = .ok nestedStars ∧
      (∃ s, (Search.start nestedStars.program (.within [97] [])).Reaches true 512 s ∧
        s.choices.length = 4 ∧ s.choices.length ≤ max 1 ((nestedStars.pattern.length + 1) / 2)) ∧
      nestedStars.outcome? .raw [[97]] ≠ some .ceilingReached ∧
      nestedStars.outcome? .raw [[97]] =
        (Cursor.start .raw [[97]]).map (evaluateUnbounded nestedStars.program) := by
  have compiled : compile true nestedStars.pattern = .ok nestedStars.program := by
    cbv
  have made : Glob.compile nestedStars.pattern = .ok nestedStars := by
    cbv
  obtain ⟨bounds, short⟩ := ceiling_out_of_reach
  -- each of the stars and the group leaves a choice point before any of them fails
  obtain ⟨s, full, reached⟩ : ∃ s : Search, s.choices.length = 4 ∧
      (Search.start nestedStars.program (.within [97] [])).Reaches true 512 s :=
    ⟨_, rfl, .head rfl (.head rfl (.head rfl (.head rfl (.single rfl))))⟩
  refine ⟨made, ⟨s, reached, full, (bounds _ _ compiled _).1 512 s reached⟩, ?_⟩
  exact short _ _ (by decide) made .raw [[97]]

/-! ## Higher ceilings -/

/-- A higher ceiling keeps every match, with the cursor that it leaves, and every miss that was not for
want of room.  So all that a ceiling can do is to turn a match into a miss. -/
theorem higher_ceiling_keeps_answers {ceiling ceiling' : Int} (le : ceiling ≤ ceiling') :
    (∀ (p : Program) (c : Cursor),
      (∀ e, evaluate p c ceiling = .found e → evaluate p c ceiling' = .found e) ∧
        (evaluate p c ceiling = .exhausted → evaluate p c ceiling' = .exhausted)) ∧
    ∀ (pattern : List Symbol) (g g' : Glob), Glob.compileWith ceiling pattern = .ok g →
      Glob.compileWith ceiling' pattern = .ok g' →
        ∀ path : List Component, g.accepts path = true → g'.accepts path = true := by
  have same {p : Program} {c : Cursor} (below : evaluate p c ceiling ≠ .ceilingReached) :
      evaluate p c ceiling' = evaluate p c ceiling :=
    run_of_le le below
  refine ⟨fun p c => ⟨fun e found => ?_, fun exhausted => ?_⟩,
    fun pattern g g' made made' path accepted => ?_⟩
  · rw [same (by simp [found]), found]
  · rw [same (by simp [exhausted]), exhausted]
  · obtain ⟨compiled, rfl⟩ := Glob.compile_of_compileWith made
    obtain ⟨compiled', rfl⟩ := Glob.compile_of_compileWith made'
    have programs : g'.program = g.program := Except.ok.inj (compiled'.symm.trans compiled)
    cases start : Cursor.start .raw path with
    | none => simp [Glob.accepts, Glob.acceptsAs, Glob.outcome?, start] at accepted
    | some c =>
      rw [Glob.accepts_of_start start] at accepted ⊢
      have below : evaluate g.program c g.ceiling ≠ .ceilingReached := by
        intro full
        rw [full] at accepted
        cases accepted
      rw [programs, same below, accepted]

theorem higher_ceiling_keeps_answers_nestedStars :
    (4 : Int) ≤ 512 ∧
      evaluate nestedStars.program (.within [97] []) 3 = .ceilingReached ∧
      evaluate nestedStars.program (.within [97] []) 4 = .found .root ∧
      evaluate nestedStars.program (.within [97] []) 512 = .found .root := by
  have full : evaluate nestedStars.program (.within [97] []) 3 = .ceilingReached := by
    cbv
  have found : evaluate nestedStars.program (.within [97] []) 4 = .found .root := by
    cbv
  have higher := higher_ceiling_keeps_answers (by decide : (4 : Int) ≤ 512)
  exact ⟨by decide, full, found, (higher.1 _ _).1 _ found⟩

end EditorSettings
