import EditorSettings.Proofs.Glob.Compiled

/-! # Slashes in a pattern

A pattern is read segment by segment, so what its slashes do can be said of the tokens: slashes in a row
are boundaries in a row, which are one boundary, and a slash at the end is a boundary at the end.

* A group that never closes is written out with what it holds at its end, so a node that is pushed last
  stays last (`finish_push`);
* a draft is `Bare` if it holds nothing but boundaries.  Every other token ends that
  (`not_bare_feed`), so a pattern comes to nothing but a boundary only if it has nothing but slashes and
  the backslashes that are dropped in front of them (`writtenOf_eq_boundary_iff`).
-/

namespace EditorSettings

/-! ## Reading -/

namespace Token

theorem segmentsTokens_append_of_error {segments : List (List Symbol)} {e : TooManyDigits}
    (fails : segmentsTokens segments = .error e) (more : List (List Symbol)) :
    segmentsTokens (segments ++ more) = .error e := by
  fun_induction segmentsTokens segments with
  | case1 => cases fails
  | case2 segment rest e' here =>
    cases fails
    simp [segmentsTokens, here]
  | case3 segment rest first here e' later ih =>
    cases fails
    simp [segmentsTokens, here, ih later]
  | case4 => cases fails

theorem segmentsTokens_append_of_ok {segments : List (List Symbol)} {tokens : List Token}
    (reads : segmentsTokens segments = .ok tokens) (more : List (List Symbol)) :
    segmentsTokens (segments ++ more) = (segmentsTokens more).map (tokens ++ ·) := by
  fun_induction segmentsTokens segments generalizing tokens with
  | case1 =>
    cases reads
    cases h : segmentsTokens more <;> simp [h, Except.map]
  | case2 => cases reads
  | case3 => cases reads
  | case4 segment rest first here others later ih =>
    cases reads
    rw [List.cons_append, segmentsTokens, here, ih later]
    cases h : segmentsTokens more <;> simp [Except.map]

theorem patternTokens_append_of_error {u : List Symbol} {e : TooManyDigits}
    (fails : patternTokens u = .error e) (v : List Symbol) :
    patternTokens (u ++ .scalar '/' :: v) = .error e := by
  rw [patternTokens, List.splitOn_append_cons_self]
  exact segmentsTokens_append_of_error fails _

theorem patternTokens_append_of_ok {u : List Symbol} {tokens : List Token}
    (reads : patternTokens u = .ok tokens) (v : List Symbol) :
    patternTokens (u ++ .scalar '/' :: v) = (patternTokens v).map (tokens ++ ·) := by
  rw [patternTokens, List.splitOn_append_cons_self]
  exact segmentsTokens_append_of_ok reads _

theorem patternTokens_nil : patternTokens [] = .ok [.boundary] := by
  simp [patternTokens, segmentsTokens]

theorem patternTokens_star : patternTokens [.scalar '*'] = .ok [.boundary, .node (.run false)] := by
  simp [patternTokens, List.splitOn_cons_eq_if_modifyHead, segmentsTokens, segmentTokens, readToken]

theorem ofClass_ne_nil (inclusive : Bool) (members : CodeSet) : ofClass inclusive members ≠ [] := by
  unfold ofClass
  simp only
  split
  · split <;> simp
  · split <;> simp

theorem readClass_ne_nil {s : List Symbol} {read : List Token × List Symbol} (h : readClass s = some read) :
    read.1 ≠ [] := by
  obtain ⟨ranges, _, rfl⟩ := Option.map_eq_some_iff.1 h
  exact ofClass_ne_nil _ _

theorem readToken_ne_nil {s : Symbol} {rest more : List Symbol} {tokens : List Token}
    (other : s ≠ .scalar '\\') (reads : readToken s rest = .ok (tokens, more)) : tokens ≠ [] := by
  unfold readToken at reads
  rw [if_neg other] at reads
  split at reads
  · cases reads
    simp
  split at reads
  · split at reads <;> cases reads <;> simp
  split at reads
  · cases class? : readClass rest with
    | none =>
      rw [class?] at reads
      cases reads
      simp
    | some read =>
      rw [class?] at reads
      cases reads
      exact readClass_ne_nil class?
  split at reads
  · split at reads
    · cases reads
      simp
    · split at reads <;> cases reads
      simp
  split at reads
  · cases reads
    simp
  split at reads
  · cases reads
    simp
  · cases reads
    simp

/-- Only a backslash at the end of a segment is read as nothing. -/
theorem readToken_eq_nil_iff {s : Symbol} {rest more : List Symbol} {tokens : List Token}
    (reads : readToken s rest = .ok (tokens, more)) :
    tokens = [] ↔ s = .scalar '\\' ∧ rest = [] := by
  by_cases backslash : s = .scalar '\\'
  · subst backslash
    simp only [readToken, if_true, Except.ok.injEq, Prod.mk.injEq] at reads
    obtain ⟨rfl, _⟩ := reads
    cases rest <;> simp
  · simp [readToken_ne_nil backslash reads, backslash]

/-- A segment that is read as nothing. -/
def Blank (segment : List Symbol) : Prop := segment = [] ∨ segment = [.scalar '\\']

theorem segmentTokens_eq_nil_iff {segment : List Symbol} {tokens : List Token}
    (reads : segmentTokens segment = .ok tokens) : tokens = [] ↔ Blank segment := by
  fun_induction segmentTokens segment generalizing tokens with
  | case1 =>
    cases reads
    simp [Blank]
  | case2 => cases reads
  | case3 => cases reads
  | case4 s rest first more read others later ih =>
    cases reads
    have nothing := readToken_eq_nil_iff read
    have shorter := length_readToken_le read
    simp only [Blank, List.append_eq_nil_iff, nothing, reduceCtorEq, List.cons.injEq, false_or]
    refine ⟨And.left, fun blank => ⟨blank, ?_⟩⟩
    rw [blank.2] at shorter
    exact (ih later).2 (.inl (List.length_eq_zero_iff.1 (Nat.le_zero.1 shorter)))

theorem segmentsTokens_of_blank {segments : List (List Symbol)} (blank : ∀ s ∈ segments, Blank s) :
    ∃ tokens, segmentsTokens segments = .ok tokens := by
  induction segments with
  | nil => exact ⟨[], rfl⟩
  | cons segment rest ih =>
    obtain ⟨here, later⟩ := List.forall_mem_cons.1 blank
    obtain ⟨tokens, reads⟩ := ih later
    have nothing : segmentTokens segment = .ok [] := by
      obtain rfl | rfl := here
      · exact segmentTokens_nil
      · simp [segmentTokens, readToken]
    exact ⟨_, by rw [segmentsTokens, nothing, reads]⟩

end Token

/-! ## Boundaries only -/

section Bare

variable {fuse : Bool} {b : Builder} {d : Draft}

def Builder.Plain (b : Builder) : Prop := ∀ n ∈ b.program, n = .boundary

/-- No group is open, and there is nothing but boundaries. -/
def Draft.Bare (d : Draft) : Prop := d.groups = [] ∧ d.out.Plain

theorem plain_push {n : Node} : (b.push fuse n).Plain ↔ b.Plain ∧ n = .boundary := by
  unfold Builder.Plain
  obtain ⟨pushed, _⟩ | ⟨p, last, merged, whole, joined, pushed⟩ := Builder.program_push fuse b n
  · rw [pushed, List.forall_mem_append, List.forall_mem_singleton]
  · have both : merged = .boundary ↔ last = .boundary ∧ n = .boundary := by
      obtain ⟨rfl, rfl, rfl⟩ | ⟨_, s, t, rfl, rfl, rfl⟩ | ⟨_, c, d, rfl, rfl, rfl⟩ :=
        Builder.eq_of_merge? joined
      · simp
      · simp [Node.boundary]
      · simp [Node.boundary]
    rw [pushed, whole, List.forall_mem_append, List.forall_mem_append, List.forall_mem_singleton,
      List.forall_mem_singleton, both, and_assoc]

theorem not_plain_pushSymbol {s : Symbol} (ordinary : s ≠ .scalar '/') :
    ¬ (b.pushSymbol fuse s).Plain := by
  rw [Builder.pushSymbol, if_neg ordinary, plain_push]
  rintro ⟨_, same⟩
  cases same

theorem Builder.Plain.of_extend {p : Program} (h : (b.extend fuse p).Plain) : b.Plain := by
  induction p generalizing b with
  | nil => exact h
  | cons n p ih => exact (plain_push.1 (ih h)).1

theorem not_plain_close (g : OpenGroup) (last : Program) : ¬ (g.close fuse last).Plain := by
  unfold OpenGroup.close
  split
  · exact not_plain_pushSymbol (by decide)
  · rw [plain_push]
    rintro ⟨_, same⟩
    cases same

theorem exists_writeOut (fuse : Bool) (g : OpenGroup) :
    ∃ opened : Builder, ¬ opened.Plain ∧ ∀ last, g.writeOut fuse last = opened.extend fuse last := by
  unfold OpenGroup.writeOut OpenGroup.branches
  cases g.finished.reverse with
  | nil => exact ⟨_, not_plain_pushSymbol (by decide), fun last => rfl⟩
  | cons first others =>
    let before := others.foldl (fun b branch => (b.pushSymbol fuse (.scalar ',')).extend fuse branch)
      ((g.before.pushSymbol fuse (.scalar '{')).extend fuse first)
    refine ⟨before.pushSymbol fuse (.scalar ','), not_plain_pushSymbol (by decide), fun last => ?_⟩
    simp only [List.cons_append, List.foldl_append, List.foldl_cons, List.foldl_nil, before]

theorem not_bare_feed {t : Token} (fits : t.Fits False) : ¬ (d.feed fuse t).Bare := by
  obtain ⟨out, groups⟩ := d
  rintro ⟨closed, plain⟩
  cases t with
  | boundary => exact fits
  | symbol s => exact not_plain_pushSymbol fits plain
  | node n =>
    obtain ⟨_, rfl⟩ := plain_push.1 plain
    exact (every_atom.1 fits).slashes rfl
  | openGroup => cases closed
  | comma =>
    cases groups with
    | nil => exact not_plain_pushSymbol (by decide) plain
    | cons g outer => cases closed
  | closeGroup =>
    cases groups with
    | nil => exact not_plain_pushSymbol (by decide) plain
    | cons g outer => exact not_plain_close g _ plain

theorem bare_feedAll {tokens : List Token} (fits : ∀ t ∈ tokens, t.Fits False) :
    (d.feedAll fuse tokens).Bare ↔ d.Bare ∧ tokens = [] := by
  induction tokens generalizing d with
  | nil => simp [Draft.feedAll]
  | cons t tokens ih =>
    obtain ⟨here, later⟩ := List.forall_mem_cons.1 fits
    have busy : ¬ (d.feed fuse t).Bare := not_bare_feed here
    rw [Draft.feedAll, List.foldl_cons, ← Draft.feedAll, ih later]
    simp [busy]

theorem bare_segments {segments : List (List Symbol)} {tokens : List Token}
    (free : ∀ segment ∈ segments, .scalar '/' ∉ segment)
    (reads : Token.segmentsTokens segments = .ok tokens) :
    (d.feedAll fuse tokens).Bare ↔ d.Bare ∧ ∀ segment ∈ segments, Token.Blank segment := by
  fun_induction Token.segmentsTokens segments generalizing tokens d with
  | case1 =>
    cases reads
    simp [Draft.feedAll]
  | case2 => cases reads
  | case3 => cases reads
  | case4 segment rest first here others later ih =>
    cases reads
    obtain ⟨free_here, free_later⟩ := List.forall_mem_cons.1 free
    have boundary : (d.feed fuse .boundary).Bare ↔ d.Bare := by
      simp [Draft.Bare, Draft.feed, plain_push]
    have segment_bare : ((d.feed fuse .boundary).feedAll fuse first).Bare ↔
        (d.feed fuse .boundary).Bare ∧ first = [] :=
      bare_feedAll (Token.fits_segmentTokens free_here here)
    have fed : d.feedAll fuse (.boundary :: first ++ others) =
        ((d.feed fuse .boundary).feedAll fuse first).feedAll fuse others := by
      rw [← Draft.feedAll_append]
      rfl
    rw [fed, ih free_later later, segment_bare, boundary, List.forall_mem_cons,
      Token.segmentTokens_eq_nil_iff here, and_assoc]

theorem plain_finish : (d.finish fuse).Plain ↔ d.Bare := by
  obtain ⟨out, groups⟩ := d
  unfold Draft.finish Draft.Bare
  simp only
  induction groups generalizing out with
  | nil => simp
  | cons g outer ih =>
    obtain ⟨opened, busy, written⟩ := exists_writeOut fuse g
    have filled : ¬ (g.writeOut fuse out.program).Plain := by
      rw [written]
      exact fun plain => busy plain.of_extend
    rw [List.foldl_cons, ih]
    simp [filled]

theorem start_bare : Draft.start.Bare := ⟨rfl, List.forall_mem_nil _⟩

end Bare

/-! ## Last nodes -/

theorem finish_push (fuse : Bool) (d : Draft) (n : Node) :
    Draft.finish fuse { d with out := d.out.push fuse n } = (d.finish fuse).push fuse n := by
  obtain ⟨out, groups⟩ := d
  unfold Draft.finish
  simp only
  induction groups generalizing out with
  | nil => rfl
  | cons g outer ih =>
    obtain ⟨opened, _, written⟩ := exists_writeOut fuse g
    rw [List.foldl_cons, List.foldl_cons, written, written, Builder.extend_program_push]
    exact ih (opened.extend fuse out.program)

theorem getLast?_push_boundary (fuse : Bool) (b : Builder) :
    (b.push fuse .boundary).program.getLast? = some .boundary := by
  obtain ⟨pushed, _⟩ | ⟨p, last, merged, whole, joined, pushed⟩ :=
    Builder.program_push fuse b .boundary
  · rw [pushed, List.getLast?_concat]
  · obtain ⟨_, _, rfl⟩ | ⟨_, _, _, _, same, _⟩ | ⟨_, _, _, _, same, _⟩ := Builder.eq_of_merge? joined
    · rw [pushed, List.getLast?_concat]
    · cases same
    · cases same

theorem push_run_of_getLast? {fuse : Bool} {b : Builder} (ends : b.program.getLast? = some .boundary)
    (crossing : Bool) : (b.push fuse (.run crossing)).program = b.program ++ [.run crossing] := by
  obtain ⟨pushed, _⟩ | ⟨p, last, merged, whole, joined, _⟩ :=
    Builder.program_push fuse b (.run crossing)
  · exact pushed
  · rw [whole, List.getLast?_concat] at ends
    cases ends
    cases joined

/-- A slash at the end of a pattern puts a boundary last, and a star after it a run after that. -/
theorem writtenOf_append_boundary (fuse : Bool) (tokens : List Token) :
    (writtenOf fuse (tokens ++ [.boundary])).getLast? = some .boundary ∧
      writtenOf fuse (tokens ++ [.boundary, .node (.run false)]) =
        writtenOf fuse (tokens ++ [.boundary]) ++ [.run false] := by
  unfold writtenOf
  rw [Draft.feedAll_append, Draft.feedAll_append]
  generalize Draft.start.feedAll fuse tokens = d
  have slash : (d.feedAll fuse [.boundary]).finish fuse = (d.finish fuse).push fuse .boundary :=
    finish_push fuse d .boundary
  have star : (d.feedAll fuse [.boundary, .node (.run false)]).finish fuse =
      ((d.feedAll fuse [.boundary]).finish fuse).push fuse (.run false) :=
    finish_push fuse (d.feedAll fuse [.boundary]) (.run false)
  have ends := getLast?_push_boundary fuse (d.finish fuse)
  rw [star, slash]
  exact ⟨ends, push_run_of_getLast? ends false⟩

/-! ## Compiling -/

/-- A pattern of slashes, and of backslashes that are dropped. -/
def SlashesOnly (p : List Symbol) : Prop := ∀ segment ∈ p.splitOn (.scalar '/'), Token.Blank segment

theorem slashesOnly_append_slash {p : List Symbol} :
    SlashesOnly (p ++ [.scalar '/']) ↔ SlashesOnly p := by
  rw [SlashesOnly, List.splitOn_append_cons_self, List.forall_mem_append]
  exact and_iff_left (List.forall_mem_singleton.2 (.inl rfl))

theorem compile_of_error {pattern : List Symbol} {e : TooManyDigits}
    (fails : Token.patternTokens pattern = .error e) (fuse : Bool) :
    compile fuse pattern = .error e := by
  simp only [compile, fails]

/-- A program of boundaries alone is one boundary, for two would be merged. -/
theorem writtenOf_eq_boundary_iff {pattern : List Symbol} {tokens : List Token}
    (reads : Token.patternTokens pattern = .ok tokens) (fuse : Bool) :
    writtenOf fuse tokens = [.boundary] ↔ SlashesOnly pattern := by
  have plain : ((Draft.start.feedAll fuse tokens).finish fuse).Plain ↔ SlashesOnly pattern := by
    rw [plain_finish, bare_segments (fun _ => not_mem_of_mem_splitOn) reads]
    exact and_iff_right start_bare
  obtain ⟨apart, rest, starts, _⟩ := rooted_writtenOf reads fuse
  rw [← plain, Builder.Plain, ← writtenOf, starts]
  rw [starts] at apart
  constructor
  · intro single
    rw [single]
    exact List.forall_mem_singleton.2 rfl
  · intro all
    cases rest with
    | nil => rfl
    | cons n rest =>
      have same : n = .boundary := all n (by simp)
      have next := (List.isChain_cons_cons.1 apart).1
      rw [same] at next
      cases next

/-- A boundary at the end that is not the one in front gets a run, unless it has one. -/
theorem withLastComponent_anchored {n : Node} {rest : Program}
    (ends : (.boundary :: n :: rest : Program).getLast? = some .boundary) :
    withLastComponent (anchored (.boundary :: n :: rest)) =
      withLastComponent (anchored (.boundary :: n :: rest ++ [.run false])) := by
  -- the root takes the place of the boundary in front, and the last one stays
  have last : (anchored (.boundary :: n :: rest)).getLast? = some .boundary := by
    rw [List.getLast?_cons_cons] at ends
    rwa [anchored, List.tail_cons, List.getLast?_cons_cons]
  have kept : anchored (.boundary :: n :: rest ++ [Node.run false]) =
      anchored (.boundary :: n :: rest) ++ [Node.run false] := rfl
  have run : (anchored (.boundary :: n :: rest) ++ [Node.run false]).getLast? ≠ some .boundary := by
    rw [List.getLast?_concat]
    intro same
    cases same
  rw [kept, withLastComponent, if_pos last, withLastComponent, if_neg run]

theorem compile_slash_slash (fuse : Bool) (u v : List Symbol) :
    compile fuse (u ++ .scalar '/' :: .scalar '/' :: v) = compile fuse (u ++ .scalar '/' :: v) := by
  cases before : Token.patternTokens u with
  | error e =>
    rw [compile_of_error (Token.patternTokens_append_of_error before _),
      compile_of_error (Token.patternTokens_append_of_error before _)]
  | ok first =>
    have twice := Token.patternTokens_append_of_ok before (.scalar '/' :: v)
    have once := Token.patternTokens_append_of_ok before v
    have slash : Token.patternTokens (.scalar '/' :: v) = _ :=
      Token.patternTokens_append_of_ok Token.patternTokens_nil v
    rw [slash] at twice
    cases after : Token.patternTokens v with
    | error e =>
      rw [after] at once twice
      rw [compile_of_error once, compile_of_error twice]
    | ok tokens =>
      rw [after] at once twice
      -- the tokens of a pattern start with a boundary, and the second slash puts another before it
      obtain ⟨more, rfl, _⟩ := Token.fits_patternTokens after
      have fed (d : Draft) : d.feedAll fuse (.boundary :: .boundary :: more) =
          d.feedAll fuse (.boundary :: more) := by
        simp only [Draft.feedAll, List.foldl_cons, Draft.feed_boundary_feed_boundary]
      have written : writtenOf fuse (first ++ .boundary :: .boundary :: more) =
          writtenOf fuse (first ++ .boundary :: more) := by
        simp only [writtenOf, Draft.feedAll_append, fed]
      rw [compile_of_tokens once, compile_of_tokens twice]
      simp only [endedAs, List.mem_append, List.mem_cons, true_or, or_true, if_true]
      exact congrArg (fun p => Except.ok (withLastComponent (anchored p))) written

/-- Slashes in a row are one slash, wherever they stand. -/
theorem slashes_collapse (fuse : Bool) (u v : List Symbol) (n : Nat) :
    compile fuse (u ++ List.replicate (n + 1) (.scalar '/') ++ v) = compile fuse (u ++ .scalar '/' :: v) := by
  induction n with
  | zero => simp
  | succ n ih =>
    rw [← ih, List.append_assoc, List.append_assoc, List.replicate_succ, List.replicate_succ]
    exact compile_slash_slash fuse u _

/-- A slash at the end of a pattern stands for a slash and a star, unless there is nothing else to the
pattern: its only boundary becomes the root, and there is none left after which a star could be put. -/
theorem trailing_slash_names_contents (fuse : Bool) (p : List Symbol) :
    (¬ SlashesOnly p ∧ compile fuse (p ++ [.scalar '/']) = compile fuse (p ++ [.scalar '/', .scalar '*'])) ∨
      (SlashesOnly p ∧ compile fuse (p ++ [.scalar '/']) = .ok [.atom .root] ∧
        compile fuse (p ++ [.scalar '/', .scalar '*']) = .ok [.atom .root, .run false]) := by
  cases before : Token.patternTokens p with
  | error e =>
    left
    have fails := compile_of_error (Token.patternTokens_append_of_error before []) fuse
    have fails' := compile_of_error (Token.patternTokens_append_of_error before [.scalar '*']) fuse
    refine ⟨fun only => ?_, fails.trans fails'.symm⟩
    obtain ⟨tokens, reads⟩ := Token.segmentsTokens_of_blank only
    cases before.symm.trans reads
  | ok tokens =>
    have slash := Token.patternTokens_append_of_ok before []
    have star := Token.patternTokens_append_of_ok before [.scalar '*']
    rw [Token.patternTokens_nil, Except.map] at slash
    rw [Token.patternTokens_star, Except.map] at star
    have only := writtenOf_eq_boundary_iff slash fuse
    obtain ⟨ends, appended⟩ := writtenOf_append_boundary fuse tokens
    obtain ⟨_, rest, starts, _⟩ := rooted_writtenOf slash fuse
    rw [compile_of_tokens slash, compile_of_tokens star, appended]
    rw [starts] at only ends ⊢
    rw [slashesOnly_append_slash] at only
    simp only [endedAs, List.mem_append, List.mem_cons, true_or, or_true, if_true]
    cases rest with
    | nil => exact .inr ⟨only.1 rfl, rfl, rfl⟩
    | cons n rest =>
      left
      refine ⟨fun alone => absurd (only.2 alone) (by simp), ?_⟩
      exact congrArg Except.ok (withLastComponent_anchored ends)

/-- A slash alone is the root, which is not what a slash and a star are. -/
theorem loneSlash_not_contents :
    compile true ([] ++ [.scalar '/']) ≠ compile true ([] ++ [.scalar '/', .scalar '*']) ∧
      compile false ([] ++ [.scalar '/']) ≠ compile false ([] ++ [.scalar '/', .scalar '*']) := by
  have slash := Token.patternTokens_append_of_ok Token.patternTokens_nil []
  have star := Token.patternTokens_append_of_ok Token.patternTokens_nil [.scalar '*']
  rw [Token.patternTokens_nil, Except.map] at slash
  rw [Token.patternTokens_star, Except.map] at star
  have apart (fuse : Bool) :
      compile fuse ([] ++ [.scalar '/']) ≠ compile fuse ([] ++ [.scalar '/', .scalar '*']) := by
    rw [compile_of_tokens slash, compile_of_tokens star]
    cases fuse <;> decide
  exact ⟨apart true, apart false⟩

end EditorSettings
