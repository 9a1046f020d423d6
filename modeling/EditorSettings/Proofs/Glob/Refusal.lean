import EditorSettings.Proofs.Glob.Rereading

/-! # Patterns that are refused

Whatever brackets, braces and backslashes a pattern holds, it compiles, unless a bound of a numeric range
has too many digits.  The range has to be read as one, so `Token.ReadsTo` follows the reading of a segment
up to its brace; in a class or after a backslash it does no harm.

How deep groups are nested is no reason to refuse a pattern here.  The model leaves out the depth of the
stack of an interpreter, which some hundred groups inside each other may exhaust when programs are
compared.
-/

namespace EditorSettings

namespace Token

/-- Reading a segment token by token comes to what is left of it at some place. -/
inductive ReadsTo : List Symbol → List Symbol → Prop
  | here {s} : ReadsTo s s
  | token {s rest tokens more place} (read : readToken s rest = .ok (tokens, more))
      (later : ReadsTo more place) : ReadsTo (s :: rest) place

/-- Reading a segment comes to a numeric range, one of whose bounds has too many digits. -/
def MeetsOverlong (segment : List Symbol) : Prop :=
  ∃ first second after, Numeral.Legible first ∧ Numeral.Legible second ∧
    (Decimal.digitLimit < first.digits.length ∨ Decimal.digitLimit < second.digits.length) ∧
    ReadsTo segment (.scalar '{' :: (Symbol.ofText first.text ++ .scalar '.' :: .scalar '.' ::
      (Symbol.ofText second.text ++ .scalar '}' :: after)))

/-! ## Tokens -/

theorem value_fails_iff {n : Numeral} :
    (∃ e, n.value = .error e) ↔ Decimal.digitLimit < n.digits.length := by
  unfold Numeral.value Decimal.read
  by_cases long : Decimal.digitLimit < n.digits.length <;> simp [long]

theorem ofBounds_fails_iff {first second : Numeral} :
    (∃ e, ofBounds first second = .error e) ↔
      Decimal.digitLimit < first.digits.length ∨ Decimal.digitLimit < second.digits.length := by
  rw [← value_fails_iff, ← value_fails_iff, ofBounds]
  cases first.value with
  | error e => simp
  | ok a => cases second.value <;> simp

/-- Only a numeric range can be refused. -/
theorem readToken_fails_iff {s : Symbol} {rest : List Symbol} :
    (∃ e, readToken s rest = .error e) ↔ s = .scalar '{' ∧
      ∃ first second after, readBounds rest = some ((first, second), after) ∧
        ∃ e, ofBounds first second = .error e := by
  constructor
  · rintro ⟨e, fails⟩
    unfold readToken at fails
    split at fails
    · cases fails
    split at fails
    · cases fails
    split at fails
    · split at fails <;> cases fails
    split at fails
    · cases fails
    split at fails
    next brace =>
      split at fails
      · cases fails
      next first second after bounds =>
        split at fails
        next e' refused => exact ⟨brace, first, second, after, bounds, e', refused⟩
        · cases fails
    · split at fails
      · cases fails
      · split at fails <;> cases fails
  · rintro ⟨rfl, first, second, after, bounds, e, refused⟩
    exact ⟨e, by simp [readToken, bounds, refused]⟩

/-! ## Segments -/

theorem segmentTokens_fails_iff {segment : List Symbol} :
    (∃ e, segmentTokens segment = .error e) ↔
      ∃ s rest, ReadsTo segment (s :: rest) ∧ ∃ e, readToken s rest = .error e := by
  fun_induction segmentTokens segment with
  | case1 =>
    constructor
    · rintro ⟨e, fails⟩
      cases fails
    · rintro ⟨s, rest, reads, _⟩
      cases reads
  | case2 s rest e refused => exact ⟨fun _ => ⟨s, rest, .here, e, refused⟩, fun _ => ⟨e, rfl⟩⟩
  | case3 s rest tokens more read e fails ih =>
    refine ⟨fun _ => ?_, fun _ => ⟨e, rfl⟩⟩
    obtain ⟨s', rest', reads, refused⟩ := ih.1 ⟨e, fails⟩
    exact ⟨s', rest', .token read reads, refused⟩
  | case4 s rest tokens more read later reads ih =>
    constructor
    · rintro ⟨e, fails⟩
      cases fails
    · rintro ⟨s', rest', reads', e, refused⟩
      -- the place is behind the first token, where nothing is refused
      cases reads' with
      | here => cases read.symm.trans refused
      | token read' reads' =>
        cases read.symm.trans read'
        obtain ⟨e', fails⟩ := ih.2 ⟨s', rest', reads', e, refused⟩
        cases reads.symm.trans fails

theorem segmentTokens_fails_iff_meetsOverlong {segment : List Symbol} :
    (∃ e, segmentTokens segment = .error e) ↔ MeetsOverlong segment := by
  rw [segmentTokens_fails_iff]
  constructor
  · rintro ⟨s, rest, reads, refused⟩
    obtain ⟨rfl, first, second, after, bounds, fails⟩ := readToken_fails_iff.1 refused
    obtain ⟨legible, legible', rfl⟩ := readBounds_eq_some_iff.1 bounds
    exact ⟨first, second, after, legible, legible', ofBounds_fails_iff.1 fails, reads⟩
  · rintro ⟨first, second, after, legible, legible', long, reads⟩
    refine ⟨_, _, reads, readToken_fails_iff.2 ⟨rfl, first, second, after, ?_, ?_⟩⟩
    · exact readBounds_eq_some_iff.2 ⟨legible, legible', rfl⟩
    · exact ofBounds_fails_iff.2 long

theorem segmentsTokens_fails_iff {segments : List (List Symbol)} :
    (∃ e, segmentsTokens segments = .error e) ↔ ∃ segment ∈ segments, MeetsOverlong segment := by
  simp only [← segmentTokens_fails_iff_meetsOverlong]
  induction segments with
  | nil => simp [segmentsTokens]
  | cons segment rest ih =>
    rw [List.exists_mem_cons_iff, ← ih, segmentsTokens]
    cases segmentTokens segment with
    | error e => simp
    | ok tokens => cases segmentsTokens rest <;> simp

/-! ## How long such a pattern is -/

theorem length_le_of_readsTo {s place : List Symbol} (h : ReadsTo s place) :
    place.length ≤ s.length := by
  induction h with
  | here => exact Nat.le_refl _
  | token read _ ih =>
    have shorter := length_readToken_le read
    simp only [List.length_cons] at shorter ⊢
    omega

theorem Numeral.length_digits_le (n : Numeral) : n.digits.length ≤ n.text.length := by
  unfold Numeral.text
  split <;> simp

theorem length_of_meetsOverlong {segment : List Symbol} (h : MeetsOverlong segment) :
    Decimal.digitLimit + 6 ≤ segment.length := by
  obtain ⟨first, second, after, legible, legible', long, reads⟩ := h
  have within := length_le_of_readsTo reads
  have left := first.length_digits_le
  have right := second.length_digits_le
  have digit := List.length_pos_iff.2 legible.ne
  have digit' := List.length_pos_iff.2 legible'.ne
  simp only [List.length_cons, List.length_append, Symbol.ofText, List.length_map] at within
  omega

end Token

theorem compile_fails_iff {fuse : Bool} {pattern : List Symbol} :
    (∃ e, compile fuse pattern = .error e) ↔
      ∃ segment ∈ pattern.splitOn (.scalar '/'), Token.MeetsOverlong segment := by
  rw [← Token.segmentsTokens_fails_iff, compile, Token.patternTokens]
  cases Token.segmentsTokens (pattern.splitOn (.scalar '/')) <;> simp

theorem compiles_iff {fuse : Bool} {pattern : List Symbol} :
    (∃ p, compile fuse pattern = .ok p) ↔
      ∀ segment ∈ pattern.splitOn (.scalar '/'), ¬ Token.MeetsOverlong segment := by
  have other : (∃ p, compile fuse pattern = .ok p) ↔ ¬ ∃ e, compile fuse pattern = .error e := by
    cases compile fuse pattern <;> simp
  simp [other, compile_fails_iff]

theorem compiles_of_length_lt (fuse : Bool) {pattern : List Symbol}
    (short : pattern.length < Decimal.digitLimit + 6) : ∃ p, compile fuse pattern = .ok p := by
  refine compiles_iff.2 fun segment member overlong => ?_
  have long := Token.length_of_meetsOverlong overlong
  have within := length_le_of_mem_splitOn member
  omega

/-- A pattern compiles exactly if it has no numeric range with a bound of too many digits, and so does
every pattern that is too short for one. -/
theorem refuses_overlong_only (fuse : Bool) (pattern : List Symbol) :
    ((∃ p, compile fuse pattern = .ok p) ↔
      ∀ segment ∈ pattern.splitOn (.scalar '/'), ¬ Token.MeetsOverlong segment) ∧
    (pattern.length < Decimal.digitLimit + 6 → ∃ p, compile fuse pattern = .ok p) :=
  ⟨compiles_iff, compiles_of_length_lt fuse⟩

/-- The pattern `{11…1..2}` whose first bound has one digit more than is allowed. -/
def overlongRange : List Symbol :=
  .scalar '{' :: (Symbol.ofText (List.replicate (Decimal.digitLimit + 1) '1') ++
    Symbol.ofText "..2\x7d".toList)

theorem overlongRange_not_compiled :
    overlongRange.length = Decimal.digitLimit + 6 ∧
      ∀ fuse, ¬ ∃ p, compile fuse overlongRange = .ok p := by
  let first : Token.Numeral := ⟨false, List.replicate (Decimal.digitLimit + 1) '1'⟩
  let second : Token.Numeral := ⟨false, ['2']⟩
  have digits : ∀ c ∈ first.digits, c = '1' := fun c => List.eq_of_mem_replicate
  have legible : first.Legible := ⟨by simp [first], fun c member => digits c member ▸ rfl⟩
  have legible' : second.Legible := ⟨by simp [second], by simp [second]⟩
  have long : Decimal.digitLimit < first.digits.length := by simp [first]
  have meets : Token.MeetsOverlong overlongRange :=
    ⟨first, second, [], legible, legible', .inl long, .here⟩
  have free : Symbol.scalar '/' ∉ overlongRange := by
    simp [overlongRange, Symbol.ofText]
  refine ⟨by simp [overlongRange, Symbol.ofText], fun fuse => ?_⟩
  rw [compiles_iff, List.splitOn_eq_singleton free]
  exact fun none => none overlongRange (List.mem_singleton_self _) meets

end EditorSettings
