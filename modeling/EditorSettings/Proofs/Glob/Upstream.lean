import EditorSettings.Glob.Basic
import EditorSettings.Proofs.Glob.Canonical
import EditorSettings.Proofs.Glob.Ceiling
import EditorSettings.Proofs.Glob.Leftover
import EditorSettings.Proofs.Glob.Merging
import EditorSettings.Proofs.Glob.Simulation

/-! # What lies above a file

A pattern without slashes compiles to a boundary and nodes that are none.  What those nodes do inside a
component has nothing to do with the components above it (`move_within`): a class takes the boundary
for a slash, which it never holds, and only a run of two stars goes on beyond it.  So a path that
matches goes on matching below more directories, and if no run crosses, the last component decides.
A single star matches every path but the empty one (`star_accepts`).
-/

namespace EditorSettings

/-! ## Moves inside a component -/

theorem move_within {a : Atom} {left : List UInt8} {above : List (Option Component)} {d : Cursor}
    (inside : a ≠ .boundary ∧ a ≠ .root) (h : (Cursor.within left above).move a = .ok (some d)) :
    ∃ left', d = .within left' above ∧
      ∀ above', (Cursor.within left above').move a = .ok (some (.within left' above')) := by
  cases a with
  | boundary => exact absurd rfl inside.1
  | root => exact absurd rfl inside.2
  | anyChar =>
    cases left with
    | nil => cases h
    | cons b more =>
      cases h
      exact ⟨_, rfl, fun _ => rfl⟩
  | literal text =>
    simp only [Cursor.move, Cursor.dropSuffix, Except.ok.injEq] at h ⊢
    cases bytes : Symbol.encode? text with
    | none => simp [bytes] at h
    | some suffix =>
      simp only [bytes, Cursor.dropBytes_within] at h ⊢
      split at h
      next found =>
        cases h
        exact ⟨_, rfl, fun _ => if_pos found⟩
      · cases h
  | charClass members inclusive =>
    simp only [Cursor.move, Except.ok.injEq] at h ⊢
    cases left with
    | nil =>
      -- a boundary is popped as a slash, and then fails the test
      cases crossed : Cursor.crossBoundary (.within [] above) with
      | none => simp [Cursor.popChar, crossed] at h
      | some e => simp [Cursor.popChar, crossed] at h
    | cons b more =>
      simp only [Cursor.popChar] at h ⊢
      split at h
      · cases h
      next popped =>
        split at popped
        · cases popped
          split at h
          · cases h
          next member =>
            cases h
            exact ⟨_, rfl, fun _ => if_neg member⟩
        · cases popped
  | number low high =>
    simp only [Cursor.move, Cursor.dropNumber] at h ⊢
    split at h
    · cases h
    next digits =>
      simp only [if_neg digits]
      split at h
      · cases h
      · obtain ⟨rest, dropped, rfl⟩ := Option.map_eq_some_iff.1 (Except.ok.inj h)
        exact ⟨rest, rfl, fun _ => by rw [dropped, Option.map_some]⟩

/-- At the root, only what takes nothing anywhere can move. -/
theorem move_root {a : Atom} {d : Cursor} (inside : a ≠ .boundary ∧ a ≠ .root)
    (h : Cursor.root.move a = .ok (some d)) : d = .root ∧ ∀ c, Cursor.move c a = .ok (some c) := by
  cases a with
  | boundary => exact absurd rfl inside.1
  | root => exact absurd rfl inside.2
  | anyChar | charClass members inclusive | number low high => cases h
  | literal text =>
    simp only [Cursor.move, Cursor.dropSuffix, Except.ok.injEq] at h ⊢
    cases bytes : Symbol.encode? text with
    | none => simp [bytes] at h
    | some suffix =>
      simp only [bytes, Cursor.dropBytes_root] at h
      split at h
      next empty =>
        cases h
        exact ⟨rfl, fun c => by rw [empty]; rfl⟩
      · cases h

/-! ## Longer paths -/

/-- The same cursor on a path with more components above, the nearest first. -/
def Cursor.below (upper : List Component) : Cursor → Cursor
  | .root =>
    match upper with
    | [] => .root
    | name :: more => .within name.reverse (more.map some)
  | .within left above => .within left (above ++ upper.map some)

theorem enter_append {above : List (Option Component)} {c : Cursor} (upper : List Component)
    (h : Cursor.enter above = some c) : Cursor.enter (above ++ upper.map some) = some (c.below upper) := by
  match above with
  | [] =>
    cases h
    cases upper with
    | nil => rfl
    | cons name more => rfl
  | none :: _ => cases h
  | some name :: above =>
    cases h
    rfl

theorem crossBoundary_below {c d : Cursor} (upper : List Component)
    (h : c.crossBoundary = some d) : (c.below upper).crossBoundary = some (d.below upper) := by
  match c with
  | .root => cases h
  | .within [] above => exact enter_append upper h
  | .within (_ :: _) _ => cases h

/-- Whatever a cursor may do, it may do below more components, the anchors of a path apart. -/
theorem follows_below (upper : List Component) :
    Follows (fun a => a ≠ .boundary ∧ a ≠ .root) (fun _ => True) fun c c' => c' = c.below upper where
  move := by
    rintro a c _ d inside rfl h
    cases c with
    | root =>
      obtain ⟨rfl, anywhere⟩ := move_root inside h
      exact ⟨_, anywhere _, rfl⟩
    | within left above =>
      obtain ⟨left', rfl, anywhere⟩ := move_within inside h
      exact ⟨_, anywhere _, rfl⟩
  dropChar := by
    rintro crossing c _ d _ rfl h
    match c, crossing with
    | .root, true => cases h
    | .root, false => cases h
    | .within [] above, true =>
      have crossed : (Cursor.within [] above).crossBoundary = some d := h
      exact ⟨_, crossBoundary_below upper crossed, rfl⟩
    | .within [] above, false => cases h
    | .within (b :: more) above, _ =>
      cases h
      exact ⟨_, rfl, rfl⟩

/-- Inside a component, whatever lies above it is never looked at. -/
theorem follows_within (above above' : List (Option Component)) :
    Follows (fun a => a ≠ .boundary ∧ a ≠ .root) (· = false) fun c c' =>
      ∃ left, c = .within left above ∧ c' = .within left above' where
  move := by
    rintro a _ _ d inside ⟨left, rfl, rfl⟩ h
    obtain ⟨left', rfl, anywhere⟩ := move_within inside h
    exact ⟨_, anywhere _, left', rfl, rfl⟩
  dropChar := by
    rintro _ _ _ d rfl ⟨left, rfl, rfl⟩ h
    cases left with
    | nil => cases h
    | cons b more =>
      cases h
      exact ⟨_, rfl, _, rfl, rfl⟩

/-! ## Patterns without slashes -/

def Program.Inside (p : Program) : Prop := p.Uses (fun _ => True) (· = false)

theorem boundary_of_compile {pattern : List Symbol} {p : Program}
    (compiled : compile true pattern = .ok p) (plain : .scalar '/' ∉ pattern) :
    p.Runnable ∧ ∃ rest, p = .boundary :: rest ∧
      Program.Uses (fun a => a ≠ .boundary ∧ a ≠ .root) (fun _ => True) rest := by
  obtain ⟨runnable, rest, rfl⟩ := starts_compile compiled
  obtain ⟨canonical, _, _⟩ := canonical_compile compiled
  rw [if_neg plain] at runnable canonical ⊢
  refine ⟨runnable, rest, rfl, fun n hn => ?_⟩
  have atoms : n.Every (fun a => a.Canonical ∧ a ≠ .boundary) fun bs => CanonicalBranches bs ∧ True :=
    (canonical.nodes n hn).and ((canonical.unrooted rfl).2 n hn)
  refine (atoms.imp ?_ fun _ _ => trivial : n.Every _ fun _ => True).uses
  rintro a ⟨canonical, inside⟩
  refine ⟨inside, ?_⟩
  rintro rfl
  exact canonical

theorem derives_boundary_cons {rest : Program} {c e : Cursor} :
    Derives (.boundary :: rest) c e ↔ ∃ d, Derives rest c d ∧ d.crossBoundary = some e := by
  rw [← List.singleton_append, derives_append]
  simp [Node.boundary, derives_atom, Cursor.move]

theorem exists_crossBoundary (names : List Component) :
    ∃ e, (Cursor.within [] (names.map some)).crossBoundary = some e := by
  cases names with
  | nil => exact ⟨_, rfl⟩
  | cons name more => exact ⟨_, rfl⟩

theorem crossBoundary_raw (left : List UInt8) (names : List Component) {above : List (Option Component)}
    {e : Cursor} (h : (Cursor.within left above).crossBoundary = some e) :
    ∃ e', (Cursor.within left (names.map some)).crossBoundary = some e' := by
  match left with
  | [] => exact exists_crossBoundary names
  | _ :: _ => cases h

theorem derives_inside {rest : Program} (inside : rest.Inside)
    (uses : rest.Uses (fun a => a ≠ .boundary ∧ a ≠ .root) fun _ => True) {left : List UInt8}
    {above : List (Option Component)} (names : List Component)
    (h : ∃ e, Derives (.boundary :: rest) (.within left above) e) :
    ∃ e, Derives (.boundary :: rest) (.within left (names.map some)) e := by
  simp only [derives_boundary_cons] at h ⊢
  obtain ⟨e, d, derived, crossed⟩ := h
  have both : rest.Uses (fun a => a ≠ .boundary ∧ a ≠ .root) (· = false) := by
    intro n hn
    simpa using (uses n hn).and (inside n hn)
  obtain ⟨_, derived', left', rfl, rfl⟩ :=
    derives_follows (follows_within above (names.map some)) both ⟨left, rfl, rfl⟩ derived
  obtain ⟨e', crossed'⟩ := crossBoundary_raw left' names crossed
  exact ⟨e', _, derived', crossed'⟩

theorem start_raw (path : List Component) : ∃ c, Cursor.start .raw path = some c := by
  have names : (path.map Reading.raw.read).reverse = path.reverse.map some := by
    rw [← List.map_reverse]
    rfl
  rw [Cursor.start, names]
  cases path.reverse with
  | nil => exact ⟨_, rfl⟩
  | cons name more => exact ⟨_, rfl⟩

theorem start_raw_append (upper lower : List Component) {c : Cursor}
    (start : Cursor.start .raw lower = some c) :
    Cursor.start .raw (upper ++ lower) = some (c.below upper.reverse) := by
  have split : ((upper ++ lower).map Reading.raw.read).reverse =
      (lower.map Reading.raw.read).reverse ++ upper.reverse.map some := by
    rw [List.map_append, List.reverse_append, List.map_reverse]
    rfl
  rw [Cursor.start, split]
  exact enter_append upper.reverse start

theorem start_raw_last (upper : List Component) (last : Component) :
    Cursor.start .raw (upper ++ [last]) = some (.within last.reverse (upper.reverse.map some)) :=
  start_raw_append upper [last] rfl

/-! ## A star -/

theorem takes_component (left : List UInt8) (above : List (Option Component)) :
    Takes false (.within left above) (.within [] above) := by
  match left with
  | [] => exact .refl
  | b :: more =>
    have first : (Cursor.within (b :: more) above).dropChar false =
        some (.within ((b :: more).drop (Cursor.lastCharWidth 3 (b :: more))) above) := rfl
    exact .head first (takes_component _ above)
termination_by left.length
decreasing_by
  have width := Cursor.lastCharWidth_pos 3 b more
  simp only [List.length_drop, List.length_cons]
  omega

/-- A star matches whatever has a last component. -/
theorem star_accepts : ∃ g, Glob.compile (Symbol.ofText ['*']) = .ok g ∧
    ∀ path : List Component, path ≠ [] → g.accepts path = true := by
  have made : compile true (Symbol.ofText ['*']) = .ok [.boundary, .run false] := by
    cbv
  refine ⟨⟨Symbol.ofText ['*'], [.boundary, .run false], Glob.defaultCeiling⟩, ?_, fun path ne => ?_⟩
  · rw [Glob.compile, Glob.compileWith, made]
  obtain ⟨upper, last, rfl⟩ : ∃ upper last, path = upper ++ [last] :=
    ⟨path.dropLast, path.getLast ne, (List.dropLast_append_getLast ne).symm⟩
  have start := start_raw_last upper last
  obtain ⟨e, crossed⟩ := exists_crossBoundary upper.reverse
  have derived : Derives [.boundary, .run false] (.within last.reverse (upper.reverse.map some)) e :=
    derives_boundary_cons.2 ⟨_, derives_run.2 (takes_component _ _), crossed⟩
  obtain ⟨runnable, _⟩ := boundary_of_compile made (by decide)
  have room : evaluate [.boundary, .run false] (.within last.reverse (upper.reverse.map some))
      Glob.defaultCeiling ≠ .ceilingReached :=
    modest_run (by decide) (modest_compile made _)
  rw [Glob.accepts_of_start start]
  exact (isMatch_iff_derives runnable start room).2 ⟨e, derived⟩

/-- A pattern without slashes goes on matching below more directories, and if none of its runs crosses
a boundary then the last component decides. -/
theorem plain_pattern_looks_down {ceiling : Int} {pattern : List Symbol} {g : Glob}
    (compiled : Glob.compileWith ceiling pattern = .ok g) (plain : .scalar '/' ∉ pattern) :
    (∀ upper lower : List Component, g.outcome? .raw (upper ++ lower) ≠ some .ceilingReached →
      g.accepts lower = true → g.accepts (upper ++ lower) = true) ∧
    (g.program.Inside → ∀ (upper : List Component) (last : Component),
      g.outcome? .raw (upper ++ [last]) ≠ some .ceilingReached →
      g.outcome? .raw [last] ≠ some .ceilingReached →
        g.accepts (upper ++ [last]) = g.accepts [last]) := by
  obtain ⟨made, rfl⟩ := Glob.compile_of_compileWith compiled
  obtain ⟨runnable, rest, front, uses⟩ := boundary_of_compile made plain
  -- a search always starts on a raw path, and decides what the program derives
  have decided {path : List Component} {c : Cursor} (start : Cursor.start .raw path = some c)
      (room : g.outcome? .raw path ≠ some .ceilingReached) :
      g.accepts path = true ↔ ∃ e, Derives (.boundary :: rest) c e := by
    rw [Glob.outcome?_of_start start, ne_eq, Option.some.injEq] at room
    rw [Glob.accepts_of_start start, isMatch_iff_derives runnable start room, front]
  constructor
  · intro upper lower room accepted
    obtain ⟨c, start⟩ := start_raw lower
    have longer := start_raw_append upper lower start
    rw [Glob.accepts_of_start start] at accepted
    rw [decided longer room]
    obtain ⟨e, derived⟩ := front ▸ derives_of_isMatch runnable start accepted
    obtain ⟨d, derived, crossed⟩ := derives_boundary_cons.1 derived
    obtain ⟨_, derived', rfl⟩ := derives_follows (follows_below upper.reverse) uses rfl derived
    exact ⟨_, derives_boundary_cons.2 ⟨_, derived', crossBoundary_below _ crossed⟩⟩
  · intro inside upper last room roomLast
    rw [front] at inside
    have inside : Program.Inside rest := fun n hn => inside n (List.mem_cons_of_mem _ hn)
    have alone : Cursor.start .raw [last] = some (.within last.reverse ([].map some)) := rfl
    rw [Bool.eq_iff_iff, decided (start_raw_last upper last) room, decided alone roomLast]
    exact ⟨derives_inside inside uses [], derives_inside inside uses upper.reverse⟩

def anyOrB : Glob where
  pattern := Symbol.ofText "{*,b}c".toList
  program := [.boundary, .choice [[.run false], [.symbol (.scalar 'b')]], .symbol (.scalar 'c')]
  ceiling := 512

theorem plain_pattern_looks_down_anyOrB :
    Glob.compileWith 512 anyOrB.pattern = .ok anyOrB ∧ .scalar '/' ∉ anyOrB.pattern ∧
      anyOrB.program.Inside ∧ anyOrB.accepts [[98, 99]] = true ∧
      anyOrB.accepts ([[97], [100]] ++ [[98, 99]]) = true ∧
      anyOrB.accepts ([[97], [100]] ++ [[98, 99]]) = anyOrB.accepts [[98, 99]] := by
  have compiled : Glob.compileWith 512 anyOrB.pattern = .ok anyOrB := by
    cbv
  have plain : .scalar '/' ∉ anyOrB.pattern := by
    decide
  have inside : anyOrB.program.Inside := by
    simp [anyOrB, Program.Inside, Program.Uses, Node.boundary, Node.symbol]
  have accepted : anyOrB.accepts [[98, 99]] = true := by
    cbv
  have found : anyOrB.outcome? .raw ([[97], [100]] ++ [[98, 99]]) =
      some (.found (.within [100] [some [97]])) := by
    cbv
  have foundLast : anyOrB.outcome? .raw [[98, 99]] = some (.found .root) := by
    cbv
  have room : anyOrB.outcome? .raw ([[97], [100]] ++ [[98, 99]]) ≠ some .ceilingReached := by
    rw [found]
    simp
  have roomLast : anyOrB.outcome? .raw [[98, 99]] ≠ some .ceilingReached := by
    rw [foundLast]
    simp
  obtain ⟨longer, last⟩ := plain_pattern_looks_down compiled plain
  exact ⟨compiled, plain, inside, accepted, longer _ _ room accepted, last inside _ _ room roomLast⟩

end EditorSettings
