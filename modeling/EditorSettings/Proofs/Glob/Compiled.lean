import EditorSettings.Proofs.Glob.Building
import EditorSettings.Proofs.Glob.Tokens
import EditorSettings.Proofs.Repetition

/-! # What compiling makes

Whatever the tokens are, a draft stays `Sound`: its neighbours are apart, its choices are arranged,
its atoms are proper, and the outermost program starts with a boundary.  Each token keeps it so
(`sound_feed`), whether it closes a group or leaves its brace as a symbol, and writing the open
groups out keeps it so too (`rooted_finish`).
-/

namespace EditorSettings

/-! ## Arranging -/

namespace OpenGroup

theorem mem_arrange {branches : List Program} {b : Program} :
    b ∈ arrange branches ↔ b ∈ branches := by
  rw [arrange, List.mem_eraseDups, List.mem_append, List.mem_filter, List.mem_filter, ← and_or_left]
  cases b <;> simp

theorem ne_nil_of_mem_tail_arrange {branches : List Program} {b : Program}
    (h : b ∈ (arrange branches).tail) : b ≠ [] := by
  unfold arrange at h
  cases empty : branches.filter (·.isEmpty) with
  | nil =>
    rw [empty, List.nil_append] at h
    have member := List.mem_eraseDups.1 (List.mem_of_mem_tail h)
    have nonempty := (List.mem_filter.1 member).2
    rintro rfl
    simp at nonempty
  | cons first others =>
    have member : first ∈ branches.filter (·.isEmpty) := empty ▸ List.mem_cons_self
    have first_empty := List.isEmpty_iff.1 (List.mem_filter.1 member).2
    rw [empty, List.cons_append, List.eraseDups_cons, List.tail_cons, List.mem_eraseDups,
      List.mem_filter] at h
    -- the other empty branches are the same as the first
    rintro rfl
    simp [first_empty] at h

end OpenGroup

/-- The branches of a choice as compiling leaves them. -/
structure Arranged (fuse : Bool) (branches : List Program) : Prop where
  ne_nil : branches ≠ []
  nodup : branches.Nodup
  empty_first : ∀ b ∈ branches.tail, b ≠ []
  apart : ∀ b ∈ branches, Program.Apart fuse b

theorem arranged_arrange {fuse : Bool} {branches : List Program} (ne_nil : branches ≠ [])
    (apart : ∀ b ∈ branches, Program.Apart fuse b) : Arranged fuse (OpenGroup.arrange branches) where
  ne_nil := by
    obtain ⟨b, member⟩ := List.exists_mem_of_ne_nil branches ne_nil
    exact List.ne_nil_of_mem (OpenGroup.mem_arrange.2 member)
  nodup := nodup_eraseDups _
  empty_first _ := OpenGroup.ne_nil_of_mem_tail_arrange
  apart b member := apart b (OpenGroup.mem_arrange.1 member)

/-! ## Neat programs -/

/-- A program as a builder leaves it inside a group. -/
structure Program.Neat (fuse : Bool) (slashes : Prop) (p : Program) : Prop where
  apart : p.Apart fuse
  nodes : p.Every (Atom.Proper slashes) (Arranged fuse)

/-- A program as a builder leaves it outside every group, after the boundary it starts with. -/
structure Program.Rooted (fuse : Bool) (slashes : Prop) (p : Program) : Prop where
  apart : p.Apart fuse
  starts : ∃ rest : Program, p = .boundary :: rest ∧ rest.Every (Atom.Proper slashes) (Arranged fuse)

section Keeping

variable {fuse : Bool} {slashes : Prop}

theorem proper_append (s t : List Symbol) (left : (Atom.literal s).Proper slashes)
    (right : (Atom.literal t).Proper slashes) : (Atom.literal (s ++ t)).Proper slashes := by
  obtain ⟨nonempty, free⟩ := left.canonical
  refine ⟨⟨?_, ?_⟩, trivial, nofun⟩
  · simp [nonempty]
  · rw [List.mem_append, not_or]
    exact ⟨free, right.canonical.2⟩

theorem neat_push {b : Builder} {n : Node} (h : b.program.Neat fuse slashes)
    (next : n.Every (Atom.Proper slashes) (Arranged fuse)) :
    (b.push fuse n).program.Neat fuse slashes :=
  ⟨Builder.apart_push h.apart, Builder.every_push proper_append h.nodes next⟩

theorem rooted_push {b : Builder} {n : Node} (h : b.program.Rooted fuse slashes)
    (next : n.Every (Atom.Proper slashes) (Arranged fuse)) :
    (b.push fuse n).program.Rooted fuse slashes := by
  refine ⟨Builder.apart_push h.apart, ?_⟩
  obtain ⟨rest, starts, nodes⟩ := h.starts
  rw [← b.ofProgram_program, starts]
  -- only a boundary can be merged into the one in front, and it changes nothing
  by_cases same : n = .boundary
  · subst same
    by_cases alone : rest = []
    · subst alone
      exact ⟨[], rfl, every_nil⟩
    · rw [Builder.push_cons (fun empty => absurd empty alone)]
      exact ⟨_, Builder.program_ofProgram _, Builder.every_push proper_append (by simpa using nodes) next⟩
  · have apart : Builder.merge? fuse .boundary n = none := Builder.merge?_boundary same
    rw [Builder.push_cons (fun _ => apart)]
    exact ⟨_, Builder.program_ofProgram _, Builder.every_push proper_append (by simpa using nodes) next⟩

/-! ## Sound drafts -/

/-- A builder inside open groups, the innermost first. -/
def Standing (fuse : Bool) (slashes : Prop) : Builder → List OpenGroup → Prop
  | out, [] => out.program.Rooted fuse slashes
  | out, g :: outer =>
    out.program.Neat fuse slashes ∧ (∀ b ∈ g.finished, Program.Neat fuse slashes b) ∧
      Standing fuse slashes g.before outer

def Draft.Sound (fuse : Bool) (slashes : Prop) (d : Draft) : Prop :=
  Standing fuse slashes d.out d.groups

theorem standing_push {out : Builder} {groups : List OpenGroup} {n : Node}
    (h : Standing fuse slashes out groups) (next : n.Every (Atom.Proper slashes) (Arranged fuse)) :
    Standing fuse slashes (out.push fuse n) groups := by
  cases groups with
  | nil => exact rooted_push h next
  | cons g outer =>
    obtain ⟨neat, finished, outside⟩ := h
    exact ⟨neat_push neat next, finished, outside⟩

theorem standing_pushSymbol {out : Builder} {groups : List OpenGroup} {s : Symbol}
    (h : Standing fuse slashes out groups) (ordinary : s ≠ .scalar '/') :
    Standing fuse slashes (out.pushSymbol fuse s) groups := by
  rw [Builder.pushSymbol, if_neg ordinary]
  apply standing_push h
  refine .atom ⟨⟨List.cons_ne_nil _ _, ?_⟩, trivial, nofun⟩
  rw [List.mem_singleton]
  exact Ne.symm ordinary

theorem standing_extend {out : Builder} {groups : List OpenGroup} {p : Program}
    (h : Standing fuse slashes out groups) (nodes : p.Every (Atom.Proper slashes) (Arranged fuse)) :
    Standing fuse slashes (out.extend fuse p) groups := by
  induction p generalizing out with
  | nil => exact h
  | cons n p ih =>
    obtain ⟨next, later⟩ := every_cons.1 nodes
    exact ih (standing_push h next) later

theorem neat_empty : Program.Neat fuse slashes Builder.empty.program :=
  ⟨List.isChain_nil, every_nil⟩

/-! ## Groups -/

section Groups

variable {g : OpenGroup} {last : Program} {outer : List OpenGroup}

theorem neat_branches (finished : ∀ b ∈ g.finished, Program.Neat fuse slashes b)
    (neat : last.Neat fuse slashes) : ∀ b ∈ g.branches last, Program.Neat fuse slashes b := by
  intro b member
  obtain member | member := List.mem_append.1 member
  · exact finished b (List.mem_reverse.1 member)
  · exact List.mem_singleton.1 member ▸ neat

theorem standing_close (finished : ∀ b ∈ g.finished, Program.Neat fuse slashes b)
    (neat : last.Neat fuse slashes) (outside : Standing fuse slashes g.before outer) :
    Standing fuse slashes (g.close fuse last) outer := by
  unfold OpenGroup.close
  split
  · have opened := standing_pushSymbol outside (by decide : Symbol.scalar '{' ≠ .scalar '/')
    exact standing_pushSymbol (standing_extend opened neat.nodes) (by decide)
  · apply standing_push outside
    have branches := neat_branches finished neat
    have ne_nil : g.branches last ≠ [] := List.append_ne_nil_of_right_ne_nil _ (List.cons_ne_nil _ _)
    refine every_choice.2 ⟨arranged_arrange ne_nil fun b member => (branches b member).apart, ?_⟩
    intro b member
    exact (branches b (OpenGroup.mem_arrange.1 member)).nodes

theorem standing_afterCommas {out : Builder} {others : List Program}
    (h : Standing fuse slashes out outer)
    (nodes : ∀ b ∈ others, Program.Every (Atom.Proper slashes) (Arranged fuse) b) :
    Standing fuse slashes
      (others.foldl (fun b branch => (b.pushSymbol fuse (.scalar ',')).extend fuse branch) out)
      outer := by
  induction others generalizing out with
  | nil => exact h
  | cons b others ih =>
    obtain ⟨here, later⟩ := List.forall_mem_cons.1 nodes
    have comma := standing_pushSymbol h (by decide : Symbol.scalar ',' ≠ .scalar '/')
    exact ih (standing_extend comma here) later

theorem standing_writeOut (finished : ∀ b ∈ g.finished, Program.Neat fuse slashes b)
    (neat : last.Neat fuse slashes) (outside : Standing fuse slashes g.before outer) :
    Standing fuse slashes (g.writeOut fuse last) outer := by
  have branches := neat_branches finished neat
  have opened := standing_pushSymbol outside (by decide : Symbol.scalar '{' ≠ .scalar '/')
  unfold OpenGroup.writeOut
  split
  · exact opened
  next first others cut =>
    rw [cut] at branches
    obtain ⟨neat_first, neat_others⟩ := List.forall_mem_cons.1 branches
    have written := standing_extend opened neat_first.nodes
    exact standing_afterCommas written fun b member => (neat_others b member).nodes

end Groups

/-! ## Drafts -/

theorem sound_start : (Draft.start.feed fuse .boundary).Sound fuse slashes :=
  ⟨List.isChain_singleton _, [], rfl, every_nil⟩

/-- A token that fits keeps a draft sound. -/
theorem sound_feed {d : Draft} {t : Token} (h : d.Sound fuse slashes) (fits : t.Fits slashes) :
    (d.feed fuse t).Sound fuse slashes := by
  obtain ⟨out, groups⟩ := d
  cases t with
  | boundary => exact standing_push h (.atom ⟨trivial, trivial, fun _ => fits⟩)
  | symbol s => exact standing_pushSymbol h fits
  | node n => exact standing_push h (fits.imp (fun _ proper => proper) fun _ => False.elim)
  | openGroup => exact ⟨neat_empty, List.forall_mem_nil _, h⟩
  | comma =>
    cases groups with
    | nil => exact standing_pushSymbol h (by decide)
    | cons g outer =>
      obtain ⟨neat, finished, outside⟩ := h
      exact ⟨neat_empty, List.forall_mem_cons.2 ⟨neat, finished⟩, outside⟩
  | closeGroup =>
    cases groups with
    | nil => exact standing_pushSymbol h (by decide)
    | cons g outer =>
      obtain ⟨neat, finished, outside⟩ := h
      exact standing_close finished neat outside

theorem sound_feedAll {d : Draft} {tokens : List Token} (h : d.Sound fuse slashes)
    (fits : ∀ t ∈ tokens, t.Fits slashes) : (d.feedAll fuse tokens).Sound fuse slashes := by
  induction tokens generalizing d with
  | nil => exact h
  | cons t tokens ih =>
    obtain ⟨here, later⟩ := List.forall_mem_cons.1 fits
    exact ih (sound_feed h here) later

theorem rooted_finish {d : Draft} (h : d.Sound fuse slashes) :
    (d.finish fuse).program.Rooted fuse slashes := by
  obtain ⟨out, groups⟩ := d
  unfold Draft.finish
  simp only
  -- each open group is written out into the program around it, the innermost first
  induction groups generalizing out with
  | nil => exact h
  | cons g outer ih =>
    obtain ⟨neat, finished, outside⟩ := h
    exact ih _ (standing_writeOut finished neat outside)

end Keeping

/-! ## Compiled patterns -/

/-- The program of some tokens, before its ends are seen to. -/
def writtenOf (fuse : Bool) (tokens : List Token) : Program :=
  ((Draft.start.feedAll fuse tokens).finish fuse).program

def endedAs (pattern : List Symbol) (p : Program) : Program :=
  withLastComponent (if .scalar '/' ∈ pattern then anchored p else p)

theorem compile_of_tokens {pattern : List Symbol} {tokens : List Token}
    (read : Token.patternTokens pattern = .ok tokens) (fuse : Bool) :
    compile fuse pattern = .ok (endedAs pattern (writtenOf fuse tokens)) := by
  simp only [compile, read, endedAs, writtenOf]

theorem rooted_writtenOf {pattern : List Symbol} {tokens : List Token}
    (read : Token.patternTokens pattern = .ok tokens) (fuse : Bool) :
    (writtenOf fuse tokens).Rooted fuse (.scalar '/' ∈ pattern) := by
  obtain ⟨more, rfl, fits⟩ := Token.fits_patternTokens read
  have started : (Draft.start.feed fuse .boundary).Sound fuse (.scalar '/' ∈ pattern) := sound_start
  have sound := sound_feedAll started fits
  exact rooted_finish sound

/-- Merging does not decide whether a pattern compiles, and what it compiles to was rooted. -/
theorem compile_cases (pattern : List Symbol) :
    (∃ e, ∀ fuse, compile fuse pattern = .error e) ∨
      ∃ tokens, ∀ fuse, compile fuse pattern = .ok (endedAs pattern (writtenOf fuse tokens)) ∧
        (writtenOf fuse tokens).Rooted fuse (.scalar '/' ∈ pattern) := by
  cases read : Token.patternTokens pattern with
  | error e =>
    left
    refine ⟨e, fun fuse => ?_⟩
    simp only [compile, read]
  | ok tokens =>
    right
    exact ⟨tokens, fun fuse => ⟨compile_of_tokens read fuse, rooted_writtenOf read fuse⟩⟩

theorem Program.Rooted.runnable {fuse : Bool} {slashes : Prop} {p : Program}
    (h : p.Rooted fuse slashes) : p.Runnable := by
  obtain ⟨rest, rfl, nodes⟩ := h.starts
  have later : Program.Runnable rest :=
    nodes.imp (fun _ proper => proper.writable.runnable) fun _ arranged => arranged.ne_nil
  exact every_cons.2 ⟨.atom trivial, later⟩

theorem runnable_endedAs {pattern : List Symbol} {p : Program} (h : p.Runnable) :
    (endedAs pattern p).Runnable := by
  have closed {q : Program} (hq : q.Runnable) : (withLastComponent q).Runnable := by
    unfold withLastComponent
    split
    · exact every_append.2 ⟨hq, every_cons.2 ⟨.run, every_nil⟩⟩
    · exact hq
  apply closed
  split
  · exact every_cons.2 ⟨.atom trivial, fun n member => h n (List.mem_of_mem_tail member)⟩
  · exact h

end EditorSettings
