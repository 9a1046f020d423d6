import EditorSettings.Proofs.Glob.Building
import EditorSettings.Proofs.Glob.Derivation

/-! # Merging and matching

A merged node moves a cursor as the two nodes would that it is made of: the bytes of two literals
are the bytes of one, and a run after a run is a run that may do what either may.  A boundary after a
boundary is the exception, for it is dropped.  `Builder.Same` is what remains the same for a builder
whichever way its nodes were merged, and `same_push` keeps it.
-/

namespace EditorSettings

/-! ## Literals -/

namespace Symbol

theorem encode?_append (s t : List Symbol) :
    encode? (s ++ t) = (encode? s).bind fun x => (encode? t).map (x ++ ·) := by
  induction s with
  | nil => cases h : encode? t <;> simp [encode?, h]
  | cons a s ih =>
    simp only [List.cons_append, encode?, ih]
    cases a.bytes? with
    | none => rfl
    | some bs =>
      cases encode? s with
      | none => rfl
      | some x => cases encode? t <;> simp

end Symbol

namespace Cursor

theorem dropBytes_root (suffix : List UInt8) :
    dropBytes suffix .root = if suffix = [] then some .root else none := by
  cases suffix <;> rfl

theorem dropBytes_within (suffix left : List UInt8) (above : List (Option Component)) :
    dropBytes suffix (.within left above) =
      if suffix.reverse <+: left then some (.within (left.drop suffix.length) above) else none := by
  cases suffix with
  | nil => simp [dropBytes]
  | cons b more => simp [dropBytes, ← List.isPrefixOf_iff_prefix]

theorem dropBytes_append (x y : List UInt8) (c : Cursor) :
    c.dropBytes (x ++ y) = (c.dropBytes y).bind (·.dropBytes x) := by
  cases c with
  | root =>
    rw [dropBytes_root, dropBytes_root]
    by_cases last : y = []
    · simp [last, dropBytes_root]
    · simp [last]
  | within left above =>
    rw [dropBytes_within, dropBytes_within, List.reverse_append]
    -- bytes lie in reverse order, so the later of the two comes first
    by_cases last : y.reverse <+: left
    · obtain ⟨rest, rfl⟩ := last
      have cut : (y.reverse ++ rest).drop y.length = rest := by
        rw [← List.length_reverse, List.drop_left]
      rw [if_pos (List.prefix_append _ _), Option.bind_some, cut, dropBytes_within,
        List.length_append, Nat.add_comm, ← List.drop_drop, cut]
      simp only [List.prefix_append_right_inj]
    · have both : ¬ y.reverse ++ x.reverse <+: left :=
        fun all => last ((List.prefix_append _ _).trans all)
      rw [if_neg last, if_neg both, Option.bind_none]

theorem dropSuffix_append (s t : List Symbol) (c : Cursor) :
    c.dropSuffix (s ++ t) = (c.dropSuffix t).bind (·.dropSuffix s) := by
  unfold dropSuffix
  rw [Symbol.encode?_append]
  cases Symbol.encode? s with
  | none => cases Symbol.encode? t <;> simp
  | some x =>
    cases Symbol.encode? t with
    | none => rfl
    | some y => exact dropBytes_append x y c

/-! ## Runs -/

theorem dropChar_crossing {crossing : Bool} {c d : Cursor} (h : c.dropChar false = some d) :
    c.dropChar crossing = some d := by
  cases c with
  | root => cases h
  | within left above =>
    cases left with
    | nil => cases h
    | cons b more => exact h

end Cursor

theorem Takes.weaken {crossing crossing' : Bool} (le : crossing = true → crossing' = true)
    {c d : Cursor} (h : Takes crossing c d) : Takes crossing' c d := by
  cases crossing with
  | true => rwa [le rfl]
  | false => exact Relation.ReflTransGen.mono (fun _ _ => Cursor.dropChar_crossing) _ _ h

/-- A run and then a run take what one run takes that may cross if either may. -/
theorem takes_or {first second : Bool} {c e : Cursor} :
    (∃ d, Takes second c d ∧ Takes first d e) ↔ Takes (first || second) c e := by
  constructor
  · rintro ⟨d, taken, more⟩
    have taken' : Takes (first || second) c d := taken.weaken (by simp +contextual)
    have more' : Takes (first || second) d e := more.weaken (by simp +contextual)
    exact taken'.trans more'
  · intro taken
    -- one of the two does all the work
    cases first with
    | true => exact ⟨c, .refl, taken⟩
    | false => exact ⟨e, taken, .refl⟩

/-! ## Merged nodes -/

theorem derives_pair {m n : Node} {c e : Cursor} :
    Derives [m, n] c e ↔ ∃ d, Derives [n] c d ∧ Derives [m] d e :=
  derives_append (p := [m]) (q := [n])

/-- A merged node does what its two parts do, unless they are boundaries. -/
theorem derives_merged {fuse : Bool} {m n merged : Node} (h : Builder.merge? fuse m n = some merged)
    (inside : n ≠ .boundary) {c e : Cursor} : Derives [merged] c e ↔ Derives [m, n] c e := by
  rw [derives_pair]
  rcases Builder.eq_of_merge? h with ⟨_, here, _⟩ | ⟨_, s, t, rfl, rfl, rfl⟩ |
    ⟨_, first, second, rfl, rfl, rfl⟩
  · exact absurd here inside
  · simp only [derives_atom, Cursor.move, Except.ok.injEq, Cursor.dropSuffix_append,
      Option.bind_eq_some_iff]
  · simp only [derives_run, takes_or]

/-! ## Pushing -/

namespace Builder

/-- What a builder holds after a push: nothing new if a boundary meets a boundary, else what it held
and the new node. -/
theorem push_spec (fuse : Bool) (b : Builder) (n : Node) :
    (b.program.getLast? = some .boundary ∧ n = .boundary ∧ b.push fuse n = b) ∨
      (¬ (b.program.getLast? = some .boundary ∧ n = .boundary) ∧
        (∀ c e, Derives (b.push fuse n).program c e ↔ Derives (b.program ++ [n]) c e) ∧
        ((b.push fuse n).program.getLast? = some .boundary ↔ n = .boundary) ∧
        ((b.push fuse n).program = [.boundary] ↔ b.program = [] ∧ n = .boundary) ∧
        (b.push fuse n).program ≠ []) := by
  obtain ⟨pushed, apart⟩ | ⟨p, last, merged, whole, joined, pushed⟩ := program_push fuse b n
  · right
    have kept : ¬ (b.program.getLast? = some .boundary ∧ n = .boundary) := by
      rintro ⟨last, rfl⟩
      cases apart .boundary last
    rw [pushed]
    refine ⟨kept, fun _ _ => .rfl, by simp, by simp [List.append_eq_singleton_iff], by simp⟩
  · rw [whole, pushed]
    -- only a boundary that meets a boundary is dropped; other nodes add what they do
    by_cases inside : n = .boundary
    · left
      obtain ⟨rfl, _, rfl⟩ | ⟨_, _, _, _, absent, _⟩ | ⟨_, _, _, _, absent, _⟩ := eq_of_merge? joined
      · have same : b.push fuse n = b := by
          rw [← (b.push fuse n).ofProgram_program, pushed, ← whole, ofProgram_program]
        exact ⟨List.getLast?_concat, inside, same⟩
      · rw [inside] at absent
        cases absent
      · rw [inside] at absent
        cases absent
    · right
      have other : merged ≠ .boundary := by
        obtain ⟨_, here, _⟩ | ⟨_, _, _, _, _, rfl⟩ | ⟨_, _, _, _, _, rfl⟩ := eq_of_merge? joined
        · exact absurd here inside
        · exact nofun
        · exact nofun
      have moves (c e : Cursor) : Derives (p ++ [merged]) c e ↔ Derives (p ++ [last] ++ [n]) c e := by
        rw [List.append_assoc, derives_append, derives_append]
        simp only [derives_merged joined inside, List.singleton_append]
      have alone : p ++ [merged] ≠ [.boundary] := by
        intro whole
        have last := congrArg List.getLast? whole
        simp [other] at last
      simp [moves, inside, other, alone]

end Builder

/-! ## The same whichever way it is merged -/

/-- Two nodes move cursors alike, and both are boundaries or neither is. -/
structure Node.Same (m n : Node) : Prop where
  derives : ∀ c e, Derives [m] c e ↔ Derives [n] c e
  boundary : m = .boundary ↔ n = .boundary

theorem Node.Same.refl (n : Node) : n.Same n := ⟨fun _ _ => .rfl, .rfl⟩

/-- Two builders hold programs that move cursors alike, and agree on what a boundary meets. -/
structure Builder.Same (b b' : Builder) : Prop where
  derives : ∀ c e, Derives b.program c e ↔ Derives b'.program c e
  last : b.program.getLast? = some .boundary ↔ b'.program.getLast? = some .boundary
  alone : b.program = [.boundary] ↔ b'.program = [.boundary]
  empty : b.program = [] ↔ b'.program = []

theorem Builder.Same.refl (b : Builder) : b.Same b :=
  ⟨fun _ _ => .rfl, .rfl, .rfl, .rfl⟩

theorem same_push {fuse fuse' : Bool} {b b' : Builder} {n n' : Node} (before : b.Same b')
    (next : n.Same n') : (b.push fuse n).Same (b'.push fuse' n') := by
  -- both builders drop the node or neither does
  have met : (b.program.getLast? = some .boundary ∧ n = .boundary) ↔
      (b'.program.getLast? = some .boundary ∧ n' = .boundary) :=
    and_congr before.last next.boundary
  obtain ⟨last, here, same⟩ | ⟨apart, moves, last, alone, filled⟩ := b.push_spec fuse n
  · obtain ⟨_, _, same'⟩ | ⟨apart', _⟩ := b'.push_spec fuse' n'
    · rw [same, same']
      exact before
    · exact absurd (met.1 ⟨last, here⟩) apart'
  · obtain ⟨last', here', _⟩ | ⟨_, moves', last', alone', filled'⟩ := b'.push_spec fuse' n'
    · exact absurd (met.2 ⟨last', here'⟩) apart
    · refine ⟨fun c e => ?_, ?_, ?_, ?_⟩
      · rw [moves, moves', derives_append, derives_append]
        simp only [next.derives, before.derives]
      · rw [last, last', next.boundary]
      · rw [alone, alone', before.empty, next.boundary]
      · exact iff_of_false filled filled'

end EditorSettings
