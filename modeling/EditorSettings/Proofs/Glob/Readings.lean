import EditorSettings.Proofs.Glob.Upstream

/-! # Two ways to read names

The code points of a name are encoded when a search enters it.  Raw bytes can be given back for some
surrogates, UTF-8 for none, so a search that reads names as UTF-8 may find its way up barred where another
one goes on: in front of a boundary, inside a run that crosses, and in a class, which asks for the boundary
as for a slash.  `Cursor.Fuller` relates two cursors of which the second stands below more readable names,
and whatever moves the first moves the second.
-/

namespace EditorSettings

/-! ## Names as code points -/

namespace Symbol

def isScalar : Symbol → Bool
  | .scalar _ => true
  | .surrogate _ => false

theorem bytes?_ofByte {b : UInt8} (high : 0x80 ≤ b.toNat) : (ofByte b).bytes? = some [b] := by
  have bound := b.toNat_lt
  have offset : (Fin.ofNat 0x800 (0x400 + b.toNat)).val = 0x400 + b.toNat :=
    Nat.mod_eq_of_lt (by omega)
  rw [ofByte, bytes?, offset, if_pos (by omega), Nat.add_sub_cancel_left, UInt8.ofNat_toNat]

theorem high_of_decodeChar {b : UInt8} {more : List UInt8} {e : Utf8.Malformed}
    (unread : Utf8.decodeChar (b :: more) = .error e) : 0x80 ≤ b.toNat := by
  rw [Utf8.decodeChar] at unread
  split at unread
  · cases unread
  next high => exact Nat.le_of_not_lt fun low => high (UInt8.lt_iff_toNat_lt.2 low)

theorem encode?_ofBytes (bytes : List UInt8) : encode? (ofBytes bytes) = some bytes := by
  fun_induction ofBytes bytes with
  | case1 => rfl
  | case2 b more e unread ih => rw [encode?, bytes?_ofByte (high_of_decodeChar unread), ih]; rfl
  | case3 b more c rest read ih => rw [encode?, bytes?, ih, Utf8.eq_encodeChar_of_decodeChar read]

theorem ofBytes_encode (t : Text) : ofBytes (Utf8.encode t) = ofText t := by
  induction t with
  | nil => rw [Utf8.encode_nil, ofBytes]; rfl
  | cons c t ih =>
    have read := Utf8.decodeChar_encodeChar c (Utf8.encode t)
    rw [Utf8.encode_cons]
    cases bytes : String.utf8EncodeChar c ++ Utf8.encode t with
    | nil => simp [String.utf8EncodeChar_ne_nil] at bytes
    | cons b more =>
      rw [bytes] at read
      rw [ofBytes]
      split
      next unread => cases read.symm.trans unread
      next same =>
        cases read.symm.trans same
        rw [ih]
        rfl

theorem isScalar_iff {name : List Symbol} : name.all isScalar ↔ ∃ t, name = ofText t := by
  constructor
  · intro scalars
    induction name with
    | nil => exact ⟨[], rfl⟩
    | cons s name ih =>
      rw [List.all_cons, Bool.and_eq_true] at scalars
      obtain ⟨t, rfl⟩ := ih scalars.2
      cases s with
      | scalar c => exact ⟨c :: t, rfl⟩
      | surrogate offset => cases scalars.1
  · rintro ⟨t, rfl⟩
    simp [ofText, isScalar]

end Symbol

namespace Reading

/-- The bytes of a name that is given by its code points, if it can be read. -/
def encode? : Reading → List Symbol → Option Component
  | .raw, name => Symbol.encode? name
  | .utf8, name => if name.all Symbol.isScalar then Symbol.encode? name else none

theorem encode?_ofBytes (reading : Reading) (name : Component) :
    reading.encode? (Symbol.ofBytes name) = reading.read name := by
  cases reading with
  | raw => exact Symbol.encode?_ofBytes name
  | utf8 =>
    have same : (Symbol.ofBytes name).all Symbol.isScalar = Utf8.isWellFormed name := by
      rw [Bool.eq_iff_iff, Symbol.isScalar_iff, Utf8.isWellFormed_iff]
      constructor
      · rintro ⟨t, text⟩
        have bytes := Symbol.encode?_ofBytes name
        rw [text, Symbol.encode?_ofText] at bytes
        exact ⟨t, Option.some.inj bytes⟩
      · rintro ⟨t, rfl⟩
        exact ⟨t, Symbol.ofBytes_encode t⟩
    rw [encode?, read, same, Symbol.encode?_ofBytes]

/-- What can be read as UTF-8 can be read as raw bytes, and is the same. -/
theorem raw_of_utf8 {name : List Symbol} {bytes : Component} (h : utf8.encode? name = some bytes) :
    raw.encode? name = some bytes := by
  rw [encode?] at h
  split at h
  · exact h
  · cases h

end Reading

/-! ## More names that can be read -/

/-- Wherever a name can be read in the first list, the same is read in the second. -/
def Fuller (above above' : List (Option Component)) : Prop :=
  List.Forall₂ (fun name name' => ∀ bytes, name = some bytes → name' = some bytes) above above'

/-- The second cursor stands at the same bytes as the first, below names of which more can be read. -/
inductive Cursor.Fuller : Cursor → Cursor → Prop
  | root : Fuller .root .root
  | within {left above above'} (names : EditorSettings.Fuller above above') :
      Fuller (.within left above) (.within left above')

section Fuller

variable {above above' : List (Option Component)} {c c' d : Cursor}

theorem enter_fuller (names : Fuller above above') (entered : Cursor.enter above = some d) :
    ∃ d', Cursor.enter above' = some d' ∧ d.Fuller d' := by
  cases names with
  | nil =>
    cases entered
    exact ⟨_, rfl, .root⟩
  | @cons name name' above above' first others =>
    cases name with
    | none => cases entered
    | some bytes =>
      cases entered
      rw [first bytes rfl]
      exact ⟨_, rfl, .within others⟩

theorem crossBoundary_fuller (fuller : c.Fuller c') (crossed : c.crossBoundary = some d) :
    ∃ d', c'.crossBoundary = some d' ∧ d.Fuller d' := by
  cases fuller with
  | root => cases crossed
  | @within left above above' names =>
    cases left with
    | nil => exact enter_fuller names crossed
    | cons b more => cases crossed

/-- Whatever moves a cursor moves one below names of which more can be read. -/
theorem follows_fuller : Follows (fun _ => True) (fun _ => True) Cursor.Fuller where
  move := by
    intro a c c' d _ fuller moved
    by_cases boundary : a = .boundary
    · subst boundary
      obtain ⟨d', crossed, further⟩ := crossBoundary_fuller fuller (Except.ok.inj moved)
      exact ⟨d', congrArg Except.ok crossed, further⟩
    · by_cases root : a = .root
      · subst root
        cases fuller with
        | root => cases moved
        | @within left above above' names =>
          match left, names with
          | [], .nil =>
            cases moved
            exact ⟨_, rfl, .root⟩
          | [], .cons _ _ => cases moved
          | _ :: _, _ => cases moved
      · cases fuller with
        | root =>
          obtain ⟨rfl, anywhere⟩ := move_root ⟨boundary, root⟩ moved
          exact ⟨_, anywhere _, .root⟩
        | within names =>
          obtain ⟨left', rfl, anywhere⟩ := move_within ⟨boundary, root⟩ moved
          exact ⟨_, anywhere _, .within names⟩
  dropChar := by
    intro crossing c c' d _ fuller dropped
    cases fuller with
    | root => cases crossing <;> cases dropped
    | @within left above above' names =>
      cases left with
      | nil =>
        cases crossing with
        | true => exact enter_fuller names dropped
        | false => cases dropped
      | cons b more =>
        cases dropped
        exact ⟨_, rfl, .within names⟩

theorem isMatch_fuller {p : Program} (runnable : p.Runnable) (names : Fuller above above')
    (start : Cursor.enter above = some c) (start' : Cursor.enter above' = some c') {ceiling : Int}
    (below : evaluate p c' ceiling ≠ .ceilingReached) (matched : (evaluate p c ceiling).isMatch = true) :
    (evaluate p c' ceiling).isMatch = true := by
  obtain ⟨e, derived⟩ :=
    (answers_of_on runnable (on_enter (List.suffix_refl _) start) ceiling).exists_of_isMatch matched
  obtain ⟨d, entered, fuller⟩ := enter_fuller names start
  cases entered.symm.trans start'
  have uses : p.Uses (fun _ => True) fun _ => True := fun n member =>
    ((runnable n member).imp (fun _ _ => trivial) fun _ h => h).uses
  obtain ⟨e', derived', _⟩ := derives_follows follows_fuller uses fuller derived
  exact ((answers_of_on runnable (on_enter (List.suffix_refl _) start') ceiling).isMatch_iff below).2
    ⟨e', derived'⟩

end Fuller

/-! ## Globs -/

namespace Glob

/-- Run a glob against a path whose names are given by their code points, as `outcome?` does. -/
def outcomeOf? (reading : Reading) (g : Glob) (names : List (List Symbol)) : Option Outcome :=
  (Cursor.enter (names.map reading.encode?).reverse).map (evaluate g.program · g.ceiling)

def acceptsOf (reading : Reading) (g : Glob) (names : List (List Symbol)) : Bool :=
  (g.outcomeOf? reading names).any Outcome.isMatch

theorem fuller_raw (names : List (List Symbol)) :
    Fuller (names.map Reading.utf8.encode?).reverse (names.map Reading.raw.encode?).reverse := by
  rw [Fuller, List.forall₂_reverse_iff, List.forall₂_map_left_iff, List.forall₂_map_right_iff,
    List.forall₂_same]
  exact fun name _ bytes => Reading.raw_of_utf8

theorem outcomeOf?_ofBytes (reading : Reading) (g : Glob) (path : List Component) :
    g.outcomeOf? reading (path.map Symbol.ofBytes) = g.outcome? reading path := by
  have names : (path.map Symbol.ofBytes).map reading.encode? = path.map reading.read := by
    rw [List.map_map]
    exact List.map_congr_left fun name _ => reading.encode?_ofBytes name
  rw [outcomeOf?, names, outcome?, Cursor.start]

/-- What matches when names are read as UTF-8 matches when they are read as raw bytes, and the outcome is the
same where all names can be read as UTF-8.  Names may be given as bytes or by their code points. -/
theorem readings_agree {ceiling : Int} {pattern : List Symbol} {g : Glob}
    (compiled : compileWith ceiling pattern = .ok g) (names : List (List Symbol)) :
    (g.outcomeOf? .raw names ≠ some .ceilingReached → g.acceptsOf .utf8 names = true →
      g.acceptsOf .raw names = true) ∧
    ((∀ name ∈ names, (Reading.utf8.encode? name).isSome) →
      g.outcomeOf? .raw names = g.outcomeOf? .utf8 names) ∧
    ∀ reading path, g.outcomeOf? reading (path.map Symbol.ofBytes) = g.outcome? reading path := by
  obtain ⟨made, _⟩ := compile_of_compileWith compiled
  obtain ⟨runnable, _⟩ := starts_compile made
  refine ⟨fun below accepted => ?_, fun readable => ?_, fun reading => g.outcomeOf?_ofBytes reading⟩
  · rw [acceptsOf, outcomeOf?] at accepted
    cases start : Cursor.enter (names.map Reading.utf8.encode?).reverse with
    | none =>
      rw [start] at accepted
      cases accepted
    | some c =>
      obtain ⟨c', start', _⟩ := enter_fuller (fuller_raw names) start
      rw [start, Option.map_some, Option.any_some] at accepted
      rw [outcomeOf?, start', Option.map_some, ne_eq, Option.some.injEq] at below
      rw [acceptsOf, outcomeOf?, start', Option.map_some, Option.any_some]
      exact isMatch_fuller runnable (fuller_raw names) start start' below accepted
  · have same : names.map Reading.raw.encode? = names.map Reading.utf8.encode? := by
      refine List.map_congr_left fun name member => ?_
      obtain ⟨bytes, read⟩ := Option.isSome_iff_exists.1 (readable name member)
      rw [read, Reading.raw_of_utf8 read]
    rw [outcomeOf?, outcomeOf?, same]

def crossing : Glob where
  pattern := Symbol.ofText "b**c".toList
  program := [.boundary, .symbol (.scalar 'b'), .run true, .symbol (.scalar 'c')]
  ceiling := 512

/-- The directory of the match is in one that has no UTF-8 name. -/
theorem readings_agree_crossing :
    let names := [[0xFF], [100], [98], [99]].map Symbol.ofBytes
    Reading.utf8.encode? (Symbol.ofBytes [0xFF]) = none ∧ crossing.acceptsOf .raw names = true ∧
      crossing.outcomeOf? .raw names.tail = crossing.outcomeOf? .utf8 names.tail := by
  intro names
  have compiled : compileWith 512 crossing.pattern = .ok crossing :=
    compileWith_of_compile (by decide +kernel) 512
  have below : crossing.outcomeOf? .raw names ≠ some .ceilingReached := by
    have start : Cursor.start .raw [[0xFF], [100], [98], [99]] =
        some (.within [99] [some [98], some [100], some [0xFF]]) := rfl
    have found :
        evaluate crossing.program (.within [99] [some [98], some [100], some [0xFF]]) crossing.ceiling =
          .found (.within [100] [some [0xFF]]) := by
      cbv
    rw [outcomeOf?_ofBytes, outcome?_of_start start, found]
    simp
  have accepted : crossing.acceptsOf .utf8 names = true := by
    have start : Cursor.start .utf8 [[0xFF], [100], [98], [99]] =
        some (.within [99] [some [98], some [100], none]) := by
      decide +kernel
    have found :
        evaluate crossing.program (.within [99] [some [98], some [100], none]) crossing.ceiling =
          .found (.within [100] [none]) := by
      cbv
    rw [acceptsOf, outcomeOf?_ofBytes, outcome?_of_start start, found]
    rfl
  have readable : ∀ name ∈ names.tail, (Reading.utf8.encode? name).isSome := by
    have all : (names.tail.all fun name => (Reading.utf8.encode? name).isSome) = true := by
      decide +kernel
    exact List.all_eq_true.1 all
  exact ⟨by decide +kernel, (readings_agree compiled names).1 below accepted,
    (readings_agree compiled names.tail).2.1 readable⟩

end Glob

end EditorSettings
