import EditorSettings.Glob.Compile
import EditorSettings.Proofs.Glob.Classes
import EditorSettings.Proofs.Glob.Shape
import EditorSettings.Proofs.Text.Decimal
import EditorSettings.Proofs.Text.Utf8
import EditorSettings.Proofs.Text.Pieces

/-! # What a token may hold

The compiler only ever feeds tokens that a pattern can give.  `Token.Fits` says what they have in
common: no symbol is a slash, atoms are canonical and can be written, and there is no choice yet.
A pattern gives a boundary and then tokens that fit (`fits_patternTokens`).
-/

namespace EditorSettings

/-- Canonical, writable, and a boundary only if the pattern has slashes. -/
structure Atom.Proper (slashes : Prop) (a : Atom) : Prop where
  canonical : a.Canonical
  writable : a.Writable
  slashes : a = .boundary → slashes

namespace Token

/-- What a token may add to a program. -/
def Fits (slashes : Prop) : Token → Prop
  | .boundary => slashes
  | .symbol s => s ≠ .scalar '/'
  | .node n => n.Every (Atom.Proper slashes) fun _ => False
  | .openGroup | .comma | .closeGroup => True

variable {slashes : Prop}

theorem fits_atom {a : Atom} (canonical : a.Canonical) (writable : a.Writable)
    (inside : a ≠ .boundary) : Fits slashes (.node (.atom a)) :=
  .atom ⟨canonical, writable, fun here => absurd here inside⟩

/-! ## Classes -/

theorem codePoint_lt (s : Symbol) : s.codePoint < 0x110000 := by
  cases s with
  | scalar c =>
    have valid : c.toNat.isValidChar := c.valid
    simp only [Nat.isValidChar] at valid
    simp only [Symbol.codePoint]
    omega
  | surrogate offset =>
    have bound := offset.isLt
    simp only [Symbol.codePoint]
    omega

theorem ofCodePoint_ne_slash {n : Nat} (h : n ≠ '/'.toNat) :
    Symbol.ofCodePoint n ≠ .scalar '/' := by
  intro same
  unfold Symbol.ofCodePoint at same
  split at same
  next valid =>
    have char : Char.ofNat n = '/' := Symbol.scalar.inj same
    exact h (by rw [← Utf8.toNat_ofNat valid, char])
  · cases same

theorem spec_withRange {before : Option Symbol} {s rest : List Symbol} {low high : Symbol}
    {read : List (Nat × Nat) × List Symbol} (within : rest <:+ s)
    (ih : ∀ {more}, classRanges before rest = some more →
      (∀ r ∈ more.1, r.2 < 0x110000) ∧ more.2 <:+ rest)
    (h : (classRanges before rest).map (withRange low high) = some read) :
    (∀ r ∈ read.1, r.2 < 0x110000) ∧ read.2 <:+ s := by
  obtain ⟨more, reads, rfl⟩ := Option.map_eq_some_iff.1 h
  obtain ⟨bounded, suffix⟩ := ih reads
  exact ⟨List.forall_mem_cons.2 ⟨codePoint_lt high, bounded⟩, suffix.trans within⟩

/-- The ranges of a class hold code points, and the class ends within the text it is read from. -/
theorem spec_classRanges {before : Option Symbol} {s : List Symbol}
    {read : List (Nat × Nat) × List Symbol} (h : classRanges before s = some read) :
    (∀ r ∈ read.1, r.2 < 0x110000) ∧ read.2 <:+ s := by
  fun_induction classRanges before s generalizing read with
  | case1 | case3 | case6 | case8 => cases h
  | case2 =>
    cases h
    exact ⟨List.forall_mem_nil _, [_], rfl⟩
  | case7 =>
    cases h
    exact ⟨List.forall_mem_singleton.2 (codePoint_lt _), [_, _], rfl⟩
  -- the others put one range in front of what is read after one, two or three symbols
  | case4 => exact spec_withRange ⟨[_, _], rfl⟩ ‹_› h
  | case5 => exact spec_withRange ⟨[_], rfl⟩ ‹_› h
  | case9 => exact spec_withRange ⟨[_, _, _], rfl⟩ ‹_› h
  | case10 => exact spec_withRange ⟨[_, _], rfl⟩ ‹_› h

theorem fits_ofClass {inclusive : Bool} {members : CodeSet} (bounded : ∀ n ∈ members, n < 0x110000) :
    ∀ t ∈ ofClass inclusive members, t.Fits slashes := by
  have free : '/'.toNat ∉ members.remove '/'.toNat := fun here => (CodeSet.mem_remove.1 here).1 rfl
  have bounded' : ∀ n ∈ members.remove '/'.toNat, n < 0x110000 :=
    fun n member => bounded n (CodeSet.mem_remove.1 member).2
  unfold ofClass
  simp only
  split
  · split
    · intro t member
      obtain rfl | member := List.mem_cons.1 member
      · exact (by decide : Symbol.scalar '[' ≠ .scalar '/')
      · rw [List.mem_singleton.1 member]
        exact (by decide : Symbol.scalar ']' ≠ .scalar '/')
    · intro t member
      rw [List.mem_singleton.1 member]
      exact fits_atom trivial trivial nofun
  next nonempty =>
    rw [Bool.not_eq_true] at nonempty
    split
    next n only =>
      intro t member
      rw [List.mem_singleton.1 member]
      apply ofCodePoint_ne_slash
      intro slash
      rw [Option.ite_none_right_eq_some] at only
      have member := CodeSet.mem_of_single? only.2
      rw [slash] at member
      exact free member
    next several =>
      intro t member
      rw [List.mem_singleton.1 member]
      refine fits_atom ⟨free, ?_⟩ bounded' nofun
      -- a class that includes one member has become that symbol
      cases inclusive with
      | true => exact CodeSet.two_le_size nonempty several
      | false => exact CodeSet.size_pos nonempty

theorem spec_readClass {s : List Symbol} {read : List Token × List Symbol}
    (h : readClass s = some read) : (∀ t ∈ read.1, t.Fits slashes) ∧ read.2 <:+ s := by
  obtain ⟨ranges, reads, rfl⟩ := Option.map_eq_some_iff.1 h
  obtain ⟨bounded, suffix⟩ := spec_classRanges reads
  constructor
  · apply fits_ofClass
    intro n member
    obtain ⟨r, here, _, high⟩ := CodeSet.mem_ofRanges.1 member
    exact Nat.lt_of_le_of_lt high (bounded r here)
  · apply suffix.trans
    split
    · exact List.tail_suffix s
    · exact List.suffix_rfl

/-! ## Numeric ranges -/

theorem spec_spanDigits (s : List Symbol) :
    (∀ c ∈ (spanDigits s).1, c.isDigit) ∧ (spanDigits s).2 <:+ s := by
  fun_induction spanDigits s with
  | case1 => exact ⟨List.forall_mem_nil _, List.suffix_rfl⟩
  | case2 => exact ⟨List.forall_mem_nil _, List.suffix_rfl⟩
  | case3 c rest digit ih => exact ⟨List.forall_mem_cons.2 ⟨digit, ih.1⟩, ih.2.trans ⟨[_], rfl⟩⟩
  | case4 => exact ⟨List.forall_mem_nil _, List.suffix_rfl⟩

theorem spec_readNumeral {s rest : List Symbol} {n : Numeral} (h : readNumeral s = some (n, rest)) :
    (∀ c ∈ n.digits, c.isDigit) ∧ rest <:+ s := by
  unfold readNumeral at h
  split at h
  · cases h
  · cases h
    have spec := spec_spanDigits (unsigned s)
    have tail : unsigned s <:+ s := by
      unfold unsigned
      split
      · exact List.tail_suffix s
      · exact List.suffix_rfl
    exact ⟨spec.1, spec.2.trans tail⟩

theorem spec_readBounds {s rest : List Symbol} {first second : Numeral}
    (h : readBounds s = some ((first, second), rest)) :
    (∀ c ∈ first.digits, c.isDigit) ∧ (∀ c ∈ second.digits, c.isDigit) ∧ rest <:+ s := by
  unfold readBounds at h
  split at h
  next left rest' reads =>
    split at h
    next right rest'' reads' =>
      cases h
      obtain ⟨digits, suffix⟩ := spec_readNumeral reads
      obtain ⟨digits', suffix'⟩ := spec_readNumeral reads'
      have inner : rest <:+ rest' := List.IsSuffix.trans ⟨[_], rfl⟩ suffix'
      have outer : rest' <:+ s := List.IsSuffix.trans ⟨[_, _], rfl⟩ suffix
      exact ⟨digits, digits', inner.trans outer⟩
    · cases h
  · cases h

theorem short_value {n : Numeral} {v : Int} (digits : ∀ c ∈ n.digits, c.isDigit)
    (h : n.value = .ok v) : Short v := by
  unfold Numeral.value Decimal.read at h
  split at h
  · cases h
  next w read =>
    split at read
    · cases read
    next within =>
      cases read
      cases h
      have size : (if n.negative then -(Decimal.value n.digits : Int) else Decimal.value n.digits).natAbs
          = Decimal.value n.digits := by
        split <;> simp
      rw [Short, size]
      exact Decimal.length_write_value_le digits (Nat.le_of_not_lt within) (by decide)

theorem fits_ofBounds {first second : Numeral} {t : Token} (digits : ∀ c ∈ first.digits, c.isDigit)
    (digits' : ∀ c ∈ second.digits, c.isDigit) (h : ofBounds first second = .ok t) :
    t.Fits slashes := by
  unfold ofBounds at h
  split at h
  · cases h
  next a left =>
    split at h
    · cases h
    next b right =>
      cases h
      have short := short_value digits left
      have short' := short_value digits' right
      have ordered : min a b ≤ max a b := by omega
      exact fits_atom ordered ⟨short.min short', short.max short'⟩ nofun

/-! ## Segments and patterns -/

theorem spec_readToken {s : Symbol} {rest : List Symbol} {read : List Token × List Symbol}
    (free : .scalar '/' ∉ s :: rest) (h : readToken s rest = .ok read) :
    (∀ t ∈ read.1, t.Fits slashes) ∧ read.2 <:+ rest := by
  -- a symbol that is read as itself is none of the slashes that the text is free of
  obtain ⟨here, later⟩ := List.ne_and_not_mem_of_not_mem_cons free
  have plain : ∀ t ∈ [symbol s], t.Fits slashes := List.forall_mem_singleton.2 (Ne.symm here)
  unfold readToken at h
  split at h
  · cases h
    constructor
    · intro t member
      obtain ⟨next, first, rfl⟩ := List.mem_map.1 member
      intro slash
      rw [Option.mem_toList, slash] at first
      exact later (List.mem_of_mem_head? first)
    · exact List.tail_suffix rest
  split at h
  · cases h
    exact ⟨List.forall_mem_singleton.2 (fits_atom trivial trivial nofun), List.suffix_rfl⟩
  split at h
  · split at h
    · cases h
      exact ⟨List.forall_mem_singleton.2 .run, List.tail_suffix rest⟩
    · cases h
      exact ⟨List.forall_mem_singleton.2 .run, List.suffix_rfl⟩
  split at h
  · cases h
    cases class? : readClass rest with
    | none => exact ⟨plain, List.suffix_rfl⟩
    | some read => exact spec_readClass class?
  split at h
  · split at h
    · cases h
      exact ⟨List.forall_mem_singleton.2 trivial, List.suffix_rfl⟩
    next first second more bounds =>
      split at h
      · cases h
      next token range =>
        cases h
        obtain ⟨digits, digits', suffix⟩ := spec_readBounds bounds
        exact ⟨List.forall_mem_singleton.2 (fits_ofBounds digits digits' range), suffix⟩
  split at h
  · cases h
    exact ⟨List.forall_mem_singleton.2 trivial, List.suffix_rfl⟩
  split at h
  · cases h
    exact ⟨List.forall_mem_singleton.2 trivial, List.suffix_rfl⟩
  · cases h
    exact ⟨plain, List.suffix_rfl⟩

theorem fits_segmentTokens {segment : List Symbol} {tokens : List Token}
    (free : .scalar '/' ∉ segment) (h : segmentTokens segment = .ok tokens) :
    ∀ t ∈ tokens, t.Fits slashes := by
  fun_induction segmentTokens segment generalizing tokens with
  | case1 =>
    cases h
    exact List.forall_mem_nil _
  | case2 => cases h
  | case3 => cases h
  | case4 s rest first rest' read more reads ih =>
    cases h
    obtain ⟨fits, suffix⟩ : (∀ t ∈ first, t.Fits slashes) ∧ rest' <:+ rest :=
      spec_readToken free read
    have free' : .scalar '/' ∉ rest' := fun slash => free (List.mem_cons_of_mem s (suffix.mem slash))
    intro t member
    obtain member | member := List.mem_append.1 member
    · exact fits t member
    · exact ih free' reads t member

theorem fits_segmentsTokens {segments : List (List Symbol)} {tokens : List Token}
    (free : ∀ segment ∈ segments, .scalar '/' ∉ segment) (slash : segments ≠ [] → slashes)
    (h : segmentsTokens segments = .ok tokens) : ∀ t ∈ tokens, t.Fits slashes := by
  fun_induction segmentsTokens segments generalizing tokens with
  | case1 =>
    cases h
    exact List.forall_mem_nil _
  | case2 => cases h
  | case3 => cases h
  | case4 segment rest first reads more reads' ih =>
    cases h
    have here : ∀ t ∈ first, t.Fits slashes :=
      fits_segmentTokens (free segment List.mem_cons_self) reads
    have later := ih (fun s member => free s (List.mem_cons_of_mem segment member))
      (fun _ => slash (List.cons_ne_nil segment rest)) reads'
    intro t member
    obtain rfl | member := List.mem_cons.1 member
    · exact slash (List.cons_ne_nil segment rest)
    obtain member | member := List.mem_append.1 member
    · exact here t member
    · exact later t member

/-- A pattern gives a boundary, and others after it only if it has slashes. -/
theorem fits_patternTokens {pattern : List Symbol} {tokens : List Token}
    (h : patternTokens pattern = .ok tokens) :
    ∃ more, tokens = .boundary :: more ∧ ∀ t ∈ more, t.Fits (.scalar '/' ∈ pattern) := by
  have free : ∀ segment ∈ pattern.splitOn (.scalar '/'), .scalar '/' ∉ segment :=
    fun _ => not_mem_of_mem_splitOn
  have count := length_splitOn (.scalar '/') pattern
  unfold patternTokens at h
  cases cut : pattern.splitOn (.scalar '/') with
  | nil => exact absurd cut (List.splitOn_ne_nil _ _)
  | cons segment rest =>
    rw [cut] at h free count
    unfold segmentsTokens at h
    split at h
    · cases h
    next first reads =>
      split at h
      · cases h
      next others reads' =>
        cases h
        have slash : rest ≠ [] → .scalar '/' ∈ pattern := by
          intro several
          have : 0 < rest.length := List.length_pos_iff.2 several
          rw [List.length_cons] at count
          exact List.count_pos_iff.1 (by omega)
        refine ⟨first ++ others, rfl, ?_⟩
        intro t member
        obtain member | member := List.mem_append.1 member
        · exact fits_segmentTokens (free segment List.mem_cons_self) reads t member
        · exact fits_segmentsTokens (fun s here => free s (List.mem_cons_of_mem segment here)) slash
            reads' t member

end Token

end EditorSettings
