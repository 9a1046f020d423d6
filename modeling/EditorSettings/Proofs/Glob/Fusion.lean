import EditorSettings.Proofs.Glob.Compiled
import EditorSettings.Proofs.Glob.Exploration
import EditorSettings.Proofs.Glob.Merging

/-! # Fusing keeps matches

The same tokens are fed to two drafts, one that merges and one that does not.  Their programs differ,
in nested choices too, and so do the searches.  But the two drafts stay `Akin`: what was pushed into
one builder corresponds to what was pushed into the other.  Akin builders are the same (`akin_same`),
so in the end the two programs derive the same, and a search decides what a program derives.
-/

namespace EditorSettings

/-! ## Akin builders -/

/-- Two builders were given the same nodes in turn, each with its own way of merging. -/
inductive Akin (fuse fuse' : Bool) : Builder → Builder → Prop
  | empty : Akin fuse fuse' .empty .empty
  | push {b b' n n'} (before : Akin fuse fuse' b b') (next : Node.Same n n') :
      Akin fuse fuse' (b.push fuse n) (b'.push fuse' n')

section Akin

variable {fuse fuse' : Bool}

theorem akin_same {b b' : Builder} (h : Akin fuse fuse' b b') : b.Same b' := by
  induction h with
  | empty => exact .refl _
  | push _ next ih => exact same_push ih next

theorem akin_pushSymbol {b b' : Builder} (h : Akin fuse fuse' b b') (s : Symbol) :
    Akin fuse fuse' (b.pushSymbol fuse s) (b'.pushSymbol fuse' s) :=
  .push h (.refl _)

theorem akin_extend {b b' : Builder} {p p' : Program} (h : Akin fuse fuse' b b')
    (more : Akin fuse fuse' (.ofProgram p) (.ofProgram p')) :
    Akin fuse fuse' (b.extend fuse p) (b'.extend fuse' p') := by
  -- the induction is on how the two were built, so they have to be builders and not programs
  have all {d d' : Builder} (more : Akin fuse fuse' d d') :
      Akin fuse fuse' (b.extend fuse d.program) (b'.extend fuse' d'.program) := by
    induction more with
    | empty => exact h
    | push _ next ih =>
      rw [Builder.extend_program_push, Builder.extend_program_push]
      exact .push ih next
  have appended := all more
  rwa [Builder.program_ofProgram, Builder.program_ofProgram] at appended

/-- Two programs were built from the same nodes. -/
abbrev Program.Akin (fuse fuse' : Bool) (p p' : Program) : Prop :=
  EditorSettings.Akin fuse fuse' (.ofProgram p) (.ofProgram p')

theorem akin_program {b b' : Builder} (h : Akin fuse fuse' b b') :
    Program.Akin fuse fuse' b.program b'.program := by
  rwa [Program.Akin, b.ofProgram_program, b'.ofProgram_program]

theorem derives_branches {branches branches' : List Program}
    (h : List.Forall₂ (Program.Akin fuse fuse') branches branches') (c e : Cursor) :
    (∃ b ∈ branches, Derives b c e) ↔ ∃ b ∈ branches', Derives b c e := by
  induction h with
  | nil => simp
  | cons first _ ih =>
    have same := (akin_same first).derives c e
    rw [Builder.program_ofProgram, Builder.program_ofProgram] at same
    simp only [List.exists_mem_cons_iff, same, ih]

/-- Arranging changes the order and the number of the branches, but not which there are. -/
theorem same_choice {branches branches' : List Program}
    (h : List.Forall₂ (Program.Akin fuse fuse') branches branches') :
    Node.Same (.choice (OpenGroup.arrange branches)) (.choice (OpenGroup.arrange branches')) := by
  refine ⟨fun c e => ?_, iff_of_false nofun nofun⟩
  rw [derives_choice, derives_choice]
  simp only [OpenGroup.mem_arrange]
  exact derives_branches h c e

/-! ## Akin drafts -/

structure OpenGroup.Akin (fuse fuse' : Bool) (g g' : OpenGroup) : Prop where
  before : EditorSettings.Akin fuse fuse' g.before g'.before
  finished : List.Forall₂ (Program.Akin fuse fuse') g.finished g'.finished

structure Draft.Akin (fuse fuse' : Bool) (d d' : Draft) : Prop where
  out : EditorSettings.Akin fuse fuse' d.out d'.out
  groups : List.Forall₂ (OpenGroup.Akin fuse fuse') d.groups d'.groups

variable {g g' : OpenGroup} {last last' : Program}

theorem akin_branches (h : g.Akin fuse fuse' g') (hl : last.Akin fuse fuse' last') :
    List.Forall₂ (Program.Akin fuse fuse') (g.branches last) (g'.branches last') :=
  List.rel_append (List.rel_reverse h.finished) (.cons hl .nil)

theorem akin_close (h : g.Akin fuse fuse' g') (hl : last.Akin fuse fuse' last') :
    Akin fuse fuse' (g.close fuse last) (g'.close fuse' last') := by
  have branches := akin_branches h hl
  obtain ⟨before, finished⟩ := g
  obtain ⟨before', finished'⟩ := g'
  -- a group with one branch is written out as braces in both drafts
  cases h.finished with
  | nil =>
    have opened := akin_pushSymbol h.before (.scalar '{')
    exact akin_pushSymbol (akin_extend opened hl) (.scalar '}')
  | cons _ _ => exact .push h.before (same_choice branches)

theorem akin_writeOut (h : g.Akin fuse fuse' g') (hl : last.Akin fuse fuse' last') :
    Akin fuse fuse' (g.writeOut fuse last) (g'.writeOut fuse' last') := by
  have branches := akin_branches h hl
  have opened := akin_pushSymbol h.before (.scalar '{')
  unfold OpenGroup.writeOut
  generalize g.branches last = bs at branches
  generalize g'.branches last' = bs' at branches
  cases branches with
  | nil => exact opened
  | cons first others =>
    apply List.rel_foldl _ (akin_extend opened first) others
    intro out out' written b b' next
    exact akin_extend (akin_pushSymbol written (.scalar ',')) next

theorem akin_feed {d d' : Draft} (h : d.Akin fuse fuse' d') (t : Token) :
    (d.feed fuse t).Akin fuse fuse' (d'.feed fuse' t) := by
  obtain ⟨out, groups⟩ := d
  obtain ⟨out', groups'⟩ := d'
  cases t with
  | boundary => exact ⟨.push h.out (.refl _), h.groups⟩
  | symbol s => exact ⟨akin_pushSymbol h.out s, h.groups⟩
  | node n => exact ⟨.push h.out (.refl n), h.groups⟩
  | openGroup => exact ⟨.empty, .cons ⟨h.out, .nil⟩ h.groups⟩
  | comma =>
    cases h.groups with
    | nil => exact ⟨akin_pushSymbol h.out _, .nil⟩
    | cons g outer => exact ⟨.empty, .cons ⟨g.before, .cons (akin_program h.out) g.finished⟩ outer⟩
  | closeGroup =>
    cases h.groups with
    | nil => exact ⟨akin_pushSymbol h.out _, .nil⟩
    | cons g outer => exact ⟨akin_close g (akin_program h.out), outer⟩

theorem akin_finish {d d' : Draft} (h : d.Akin fuse fuse' d') :
    Akin fuse fuse' (d.finish fuse) (d'.finish fuse') := by
  apply List.rel_foldl _ h.out h.groups
  intro out out' akin g g' group
  exact akin_writeOut group (akin_program akin)

theorem same_written (tokens : List Token) :
    ((Draft.start.feedAll fuse tokens).finish fuse).Same
      ((Draft.start.feedAll fuse' tokens).finish fuse') := by
  have fed {d d' : Draft} (h : d.Akin fuse fuse' d') :
      (d.feedAll fuse tokens).Akin fuse fuse' (d'.feedAll fuse' tokens) := by
    induction tokens generalizing d d' with
    | nil => exact h
    | cons t tokens ih => exact ih (akin_feed h t)
  exact akin_same (akin_finish (fed ⟨.empty, .nil⟩))

end Akin

/-! ## The ends of a program -/

theorem crossBoundary_eq_root {c : Cursor} : c.crossBoundary = some .root ↔ c.reachRoot = some .root := by
  match c with
  | .root => exact .rfl
  | .within [] [] => exact .rfl
  | .within [] (none :: _) => simp [Cursor.crossBoundary, Cursor.enter, Cursor.reachRoot]
  | .within [] (some _ :: _) => simp [Cursor.crossBoundary, Cursor.enter, Cursor.reachRoot]
  | .within (_ :: _) _ => simp [Cursor.crossBoundary, Cursor.reachRoot]

theorem eq_root_of_reachRoot {c d : Cursor} (h : c.reachRoot = some d) : d = .root := by
  unfold Cursor.reachRoot at h
  split at h
  · exact (Option.some.inj h).symm
  · cases h

/-- An anchored program matches where the program that it was would reach the root. -/
theorem derives_anchored {p rest : Program} (starts : p = .boundary :: rest) {c e : Cursor} :
    Derives (anchored p) c e ↔ e = .root ∧ Derives p c .root := by
  subst starts
  have split_first (a : Atom) (e : Cursor) :
      Derives (.atom a :: rest) c e ↔ ∃ d, Derives rest c d ∧ d.move a = .ok (some e) := by
    rw [← List.singleton_append, derives_append]
    simp only [derives_atom]
  have whole : anchored (.boundary :: rest) = .atom .root :: rest := rfl
  rw [whole, Node.boundary, split_first, split_first]
  simp only [Cursor.move, Except.ok.injEq]
  constructor
  · rintro ⟨d, derived, reached⟩
    have root := eq_root_of_reachRoot reached
    subst root
    exact ⟨rfl, d, derived, crossBoundary_eq_root.2 reached⟩
  · rintro ⟨rfl, d, derived, crossed⟩
    exact ⟨d, derived, crossBoundary_eq_root.1 crossed⟩

theorem getLast?_anchored {p rest : Program} (starts : p = .boundary :: rest) :
    (anchored p).getLast? = some .boundary ↔
      p.getLast? = some .boundary ∧ p ≠ [.boundary] := by
  subst starts
  obtain rfl | ⟨older, last, rfl⟩ := List.eq_nil_or_concat rest
  · simp [anchored, Node.boundary]
  · simp [anchored, List.getLast?_cons]

theorem derives_endedAs {pattern : List Symbol} {b b' : Builder} {rest rest' : Program}
    (same : b.Same b') (starts : b.program = .boundary :: rest)
    (starts' : b'.program = .boundary :: rest') (c e : Cursor) :
    Derives (endedAs pattern b.program) c e ↔ Derives (endedAs pattern b'.program) c e := by
  -- a last component is matched by both or by neither
  have closed {p p' : Program} (derives : ∀ c e, Derives p c e ↔ Derives p' c e)
      (last : p.getLast? = some .boundary ↔ p'.getLast? = some .boundary) :
      Derives (withLastComponent p) c e ↔ Derives (withLastComponent p') c e := by
    unfold withLastComponent
    by_cases here : p.getLast? = some .boundary
    · rw [if_pos here, if_pos (last.1 here), derives_append, derives_append]
      simp only [derives]
    · rw [if_neg here, if_neg (mt last.2 here)]
      exact derives c e
  unfold endedAs
  split
  -- an anchored program ends in a boundary unless the boundary was all there was
  · apply closed
    · intro c e
      rw [derives_anchored starts, derives_anchored starts', same.derives]
    · rw [getLast?_anchored starts, getLast?_anchored starts', same.last, ne_eq, ne_eq, same.alone]
  · exact closed same.derives same.last

/-! ## Fused and unfused programs -/

/-- Two programs match the same paths, wherever both searches end below their ceilings. -/
def Program.MatchesAs (p q : Program) : Prop :=
  ∀ (reading : Reading) (path : List Component) (c : Cursor), Cursor.start reading path = some c →
    ∀ ceiling ceiling' : Int, evaluate p c ceiling ≠ .ceilingReached →
      evaluate q c ceiling' ≠ .ceilingReached →
        (evaluate p c ceiling).isMatch = (evaluate q c ceiling').isMatch

theorem matchesAs_of_derives {p q : Program} (runnable : p.Runnable) (runnable' : q.Runnable)
    (same : ∀ c e, Derives p c e ↔ Derives q c e) : p.MatchesAs q := by
  intro reading path c start ceiling ceiling' below below'
  rw [Bool.eq_iff_iff, isMatch_iff_derives runnable start below,
    isMatch_iff_derives runnable' start below']
  simp only [same]

namespace Builder

/-- Push nodes, each with a flag of its own whether it may be merged. -/
def pushAll (steps : List (Bool × Node)) : Builder :=
  steps.foldl (fun b step => b.push step.1 step.2) empty

theorem runnable_pushAll {steps : List (Bool × Node)}
    (runnable : Program.Runnable (steps.map Prod.snd)) : (pushAll steps).program.Runnable := by
  have pushed {b : Builder} (h : b.program.Runnable) :
      (steps.foldl (fun b step => b.push step.1 step.2) b).program.Runnable := by
    induction steps generalizing b with
    | nil => exact h
    | cons step steps ih =>
      obtain ⟨here, later⟩ := every_cons.1 runnable
      exact ih later (every_push (fun _ _ _ _ => trivial) h here)
  exact pushed every_nil

theorem same_pushAll {steps steps' : List (Bool × Node)}
    (nodes : steps.map Prod.snd = steps'.map Prod.snd) : (pushAll steps).Same (pushAll steps') := by
  have pushed {b b' : Builder} (h : b.Same b') :
      (steps.foldl (fun b step => b.push step.1 step.2) b).Same
        (steps'.foldl (fun b step => b.push step.1 step.2) b') := by
    induction steps generalizing steps' b b' with
    | nil =>
      cases List.map_eq_nil_iff.1 nodes.symm
      exact h
    | cons step steps ih =>
      obtain ⟨step', others, rfl, next, nodes'⟩ := List.map_eq_cons_iff.1 nodes.symm
      have first : step.2.Same step'.2 := next ▸ .refl _
      exact ih nodes'.symm (same_push h first)
  exact pushed (.refl _)

end Builder

/-- Merging decides neither whether a pattern compiles nor what it matches, and neither does it
matter which of the nodes pushed into a builder are merged. -/
theorem merging_keeps_matches :
    (∀ pattern, (∃ e, ∀ fuse, compile fuse pattern = .error e) ∨
      ∃ p q, compile true pattern = .ok p ∧ compile false pattern = .ok q ∧ p.MatchesAs q) ∧
    ∀ steps steps' : List (Bool × Node), steps.map Prod.snd = steps'.map Prod.snd →
      Program.Runnable (steps.map Prod.snd) →
        (Builder.pushAll steps).program.MatchesAs (Builder.pushAll steps').program := by
  constructor
  · intro pattern
    obtain fails | ⟨tokens, compiled⟩ := compile_cases pattern
    · exact .inl fails
    · right
      obtain ⟨fused, rooted⟩ := compiled true
      obtain ⟨unfused, rooted'⟩ := compiled false
      refine ⟨_, _, fused, unfused, ?_⟩
      obtain ⟨rest, starts, _⟩ := rooted.starts
      obtain ⟨rest', starts', _⟩ := rooted'.starts
      apply matchesAs_of_derives (runnable_endedAs rooted.runnable) (runnable_endedAs rooted'.runnable)
      exact derives_endedAs (same_written tokens) starts starts'
  · intro steps steps' nodes runnable
    have runnable' : Program.Runnable (steps'.map Prod.snd) := nodes ▸ runnable
    apply matchesAs_of_derives (Builder.runnable_pushAll runnable) (Builder.runnable_pushAll runnable')
    exact (Builder.same_pushAll nodes).derives

/-- The pattern `{**,***}b`, whose two branches are equal once they are merged. -/
def twoRuns : List Symbol := Symbol.ofText "{**,***}b".toList

def twoRunsAs : (fuse : Bool) → Program
  | true => [.boundary, .choice [[.run true]], .symbol (.scalar 'b')]
  | false => [.boundary, .choice [[.run true], [.run true, .run false]], .symbol (.scalar 'b')]

theorem merging_keeps_matches_twoRuns :
    (∀ fuse, compile fuse twoRuns = .ok (twoRunsAs fuse)) ∧
      Cursor.start .raw [[97, 98]] = some (.within [98, 97] []) ∧
      (∀ fuse, evaluate (twoRunsAs fuse) (.within [98, 97] []) 512 ≠ .ceilingReached) ∧
      (evaluate (twoRunsAs true) (.within [98, 97] []) 512).isMatch =
        (evaluate (twoRunsAs false) (.within [98, 97] []) 512).isMatch ∧
      Program.Runnable [.run true, .run false] ∧
      Program.MatchesAs [.run true] [.run true, .run false] := by
  have compiled (fuse : Bool) : compile fuse twoRuns = .ok (twoRunsAs fuse) := by
    cases fuse <;> decide +kernel
  have start : Cursor.start .raw [[97, 98]] = some (.within [98, 97] []) := rfl
  have below (fuse : Bool) :
      evaluate (twoRunsAs fuse) (.within [98, 97] []) 512 ≠ .ceilingReached := by
    have found : evaluate (twoRunsAs fuse) (.within [98, 97] []) 512 = .found .root := by
      cases fuse <;> cbv
    rw [found]
    intro full
    cases full
  obtain ⟨e, fails⟩ | ⟨p, q, fused, unfused, same⟩ := merging_keeps_matches.1 twoRuns
  · cases (compiled true).symm.trans (fails true)
  · cases (compiled true).symm.trans fused
    cases (compiled false).symm.trans unfused
    have runnable : Program.Runnable [.run true, .run false] := by
      simp [Program.Runnable]
    refine ⟨compiled, start, below, same .raw _ _ start 512 512 (below true) (below false),
      runnable, ?_⟩
    exact merging_keeps_matches.2 [(true, .run true), (true, .run false)]
      [(false, .run true), (false, .run false)] rfl runnable

end EditorSettings
