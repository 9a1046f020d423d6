import EditorSettings.Proofs.Glob.Compiled
import EditorSettings.Proofs.Glob.Exploration

/-! # What a match leaves

The node in front of a compiled program is consumed last.  It is a boundary or the root, and neither
can be reached from inside a component, so whichever branches and lengths of runs were taken before, a
match leaves whole components or nothing.  A cursor at the end of a component stands where a search of
a shorter path would start (`start_take`).
-/

namespace EditorSettings

section Leftover

variable {reading : Reading} {components : List Component}

/-! ## Staying on the path -/

theorem on_takes {path : List (Option Component)} {crossing : Bool} {c d : Cursor} (on : c.On path)
    (h : Takes crossing c d) : d.On path := by
  induction h with
  | refl => exact on
  | tail _ drop ih => exact on_dropChar ih drop

theorem on_consumes {path : List (Option Component)} {ns : List Node} {c d : Cursor}
    (on : c.On path) (h : Consumes ns c d) : d.On path := by
  induction h with
  | done => exact on
  | atom moved _ ih => exact ih (on_move on moved)
  | run taken _ ih => exact ih (on_takes on taken)
  | choice _ _ _ inside more => exact more (inside on)

/-! ## Ends of components -/

theorem start_take {above : List (Option Component)}
    (here : above <:+ (components.map reading.read).reverse) :
    Cursor.start reading (components.take above.length) = Cursor.enter above := by
  have length := here.length_le
  have cut := List.suffix_iff_eq_drop.1 here
  rw [List.length_reverse, List.length_map] at length cut
  have first : ((components.take above.length).map reading.read).reverse = above := by
    rw [List.map_take, List.reverse_take, List.length_map]
    exact cut.symm
  rw [Cursor.start, first]

theorem start_of_crossBoundary {c d : Cursor} (on : c.On (components.map reading.read).reverse)
    (h : c.crossBoundary = some d) :
    ∃ n < components.length, Cursor.start reading (components.take n) = some d := by
  unfold Cursor.crossBoundary at h
  split at h
  next above =>
    obtain ⟨name, here, _⟩ := on
    have shorter := here.length_le
    simp only [List.length_cons, List.length_reverse, List.length_map] at shorter
    exact ⟨above.length, shorter, (start_take ((List.suffix_cons _ _).trans here)).trans h⟩
  · cases h

theorem start_of_reachRoot {c d : Cursor} (on : c.On (components.map reading.read).reverse)
    (h : c.reachRoot = some d) :
    d = .root ∧ ∃ n < components.length, Cursor.start reading (components.take n) = some d := by
  unfold Cursor.reachRoot at h
  split at h
  · cases h
    exact ⟨rfl, start_of_crossBoundary on rfl⟩
  · cases h

/-! ## The node in front -/

/-- A compiled program can be run, and starts at the root if the pattern has slashes and else at a
boundary. -/
theorem starts_compile {fuse : Bool} {pattern : List Symbol} {p : Program}
    (compiled : compile fuse pattern = .ok p) :
    p.Runnable ∧
      ∃ rest, p = .atom (if .scalar '/' ∈ pattern then .root else .boundary) :: rest := by
  obtain ⟨e, fails⟩ | ⟨tokens, made⟩ := compile_cases pattern
  · cases (fails fuse).symm.trans compiled
  obtain ⟨made, rooted⟩ := made fuse
  cases made.symm.trans compiled
  refine ⟨runnable_endedAs rooted.runnable, ?_⟩
  obtain ⟨rest, starts, _⟩ := rooted.starts
  -- what is added at the end does not touch the front
  have front (first : Node) : ∃ more, withLastComponent (first :: rest) = first :: more := by
    unfold withLastComponent
    split
    · exact ⟨rest ++ [.run false], rfl⟩
    · exact ⟨rest, rfl⟩
  rw [endedAs, starts]
  split
  · exact front (.atom .root)
  · exact front .boundary

/-- A match leaves a path of fewer components, untouched, and nothing if the pattern has a slash. -/
theorem match_leaves_whole_components {fuse : Bool} {pattern : List Symbol} {p : Program}
    (compiled : compile fuse pattern = .ok p) {c : Cursor}
    (start : Cursor.start reading components = some c) {ceiling : Int} {e : Cursor}
    (found : evaluate p c ceiling = .found e) :
    components ≠ [] ∧ (.scalar '/' ∈ pattern → e = .root) ∧
      ∃ n < components.length, Cursor.start reading (components.take n) = some e := by
  obtain ⟨runnable, rest, rfl⟩ := starts_compile compiled
  have derived : Derives (.atom (if .scalar '/' ∈ pattern then .root else .boundary) :: rest) c e := by
    have answers := answers_evaluate runnable start ceiling
    rwa [found] at answers
  rw [← List.singleton_append, derives_append] at derived
  obtain ⟨d, inside, last⟩ := derived
  have on : d.On (components.map reading.read).reverse := on_consumes (on_start start) inside
  rw [derives_atom] at last
  have left : (.scalar '/' ∈ pattern → e = .root) ∧
      ∃ n < components.length, Cursor.start reading (components.take n) = some e := by
    split at last
    · obtain ⟨root, shorter⟩ := start_of_reachRoot on (Except.ok.inj last)
      exact ⟨fun _ => root, shorter⟩
    next plain =>
      exact ⟨fun slash => absurd slash plain, start_of_crossBoundary on (Except.ok.inj last)⟩
  obtain ⟨n, shorter, _⟩ := left.2
  exact ⟨List.ne_nil_of_length_pos (by omega), left⟩

/-- The pattern `{a,b}*` leaves the directory `a` of `a/bc`. -/
theorem match_leaves_whole_components_directory :
    ∃ p, compile true (Symbol.ofText "{a,b}*".toList) = .ok p ∧
      Cursor.start .raw [[97], [98, 99]] = some (.within [99, 98] [some [97]]) ∧
      evaluate p (.within [99, 98] [some [97]]) 512 = .found (.within [97] []) ∧
      ∃ n < 2, Cursor.start .raw ([[97], [98, 99]].take n) = some (.within [97] []) := by
  have compiled : compile true (Symbol.ofText "{a,b}*".toList) =
      .ok [.boundary, .choice [[.symbol (.scalar 'a')], [.symbol (.scalar 'b')]], .run false] := by
    cbv
  have start : Cursor.start .raw [[97], [98, 99]] = some (.within [99, 98] [some [97]]) := rfl
  have found : evaluate [.boundary, .choice [[.symbol (.scalar 'a')], [.symbol (.scalar 'b')]],
      .run false] (.within [99, 98] [some [97]]) 512 = .found (.within [97] []) := by
    cbv
  exact ⟨_, compiled, start, found, (match_leaves_whole_components compiled start found).2.2⟩

end Leftover

end EditorSettings
