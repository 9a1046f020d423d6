import EditorSettings.Proofs.Glob.Inverse
import EditorSettings.Proofs.Glob.Numbers
import EditorSettings.Proofs.Glob.Upstream

/-! # A range at the end of a pattern

A number is dropped as a whole or not at all: the search does not come back to take a shorter one.  So a
range after some symbols matches these symbols and a number only where the number cannot be longer than
it was meant to be.  That is so if no byte right before it could be part of a numeral
(`Cursor.dropNumber_of_apart`), and no byte of a symbol other than a digit or a hyphen can
(`Symbol.apart_of_bytes?`).
-/

namespace EditorSettings

/-! ## Numbers as a whole -/

/-- A byte that is part of no numeral. -/
def Cursor.Apart (b : UInt8) : Prop := isDigit b = false ∧ b ≠ 0x2D

theorem Token.Numeral.Legible.not_apart {n : Token.Numeral} (legible : n.Legible) {b : UInt8}
    (member : b ∈ Utf8.encode n.text) : ¬ Cursor.Apart b := by
  rintro ⟨digit, minus⟩
  rw [← List.mem_reverse, legible.reverse_encode, List.mem_append] at member
  obtain digits | sign := member
  · obtain ⟨c, inside, rfl⟩ := List.mem_map.1 digits
    have here := legible.digits c (List.mem_reverse.1 inside)
    rw [TextCursor.isDigit_byte (Decimal.ascii_of_isDigit here), here] at digit
    cases digit
  · split at sign
    · exact minus (List.mem_singleton.1 sign)
    · cases sign

/-- A number between the bounds is dropped as a whole if nothing right before it could be part of it. -/
theorem Cursor.dropNumber_of_apart {low high : Int} (short : Short low) (short' : Short high)
    {n : Token.Numeral} (between : n.Between low high) {left rest : List UInt8} (ends : n.Ends left rest)
    (apart : ∀ b, rest.head? = some b → Apart b) (above : List (Option Component)) :
    (within left above).dropNumber low high = .ok (some (.within rest above)) := by
  obtain ⟨after, dropped, le⟩ := dropNumber_of_ends short short' between ends above
  obtain ⟨m, _, _, _, between', ends', same, same'⟩ := dropNumber_sound dropped
  cases same
  cases same'
  have last : rest <:+ left := ⟨_, ends.symm⟩
  have last' : after <:+ left := ⟨_, ends'.symm⟩
  obtain ⟨more, rfl⟩ := List.suffix_of_suffix_length_le last' last le
  cases more with
  | nil => exact dropped
  | cons b more =>
    -- a longer numeral would start with that byte
    have longer : (Utf8.encode m.text).reverse = (Utf8.encode n.text).reverse ++ b :: more := by
      have bytes := ends'.symm.trans ends
      rw [← List.append_assoc] at bytes
      exact List.append_cancel_right bytes
    have member : b ∈ Utf8.encode m.text := by
      rw [← List.mem_reverse, longer]
      simp
    exact absurd (apart b rfl) (between'.not_apart member)

theorem Symbol.apart_of_bytes? {s : Symbol} {bytes : List UInt8} (h : s.bytes? = some bytes)
    (other : ∀ c, s = .scalar c → c.isDigit = false ∧ c ≠ '-') : ∀ b ∈ bytes, Cursor.Apart b := by
  have wide {b : UInt8} (high : 0x80 ≤ b.toNat) : Cursor.Apart b := by
    constructor
    · rw [← Bool.not_eq_true, TextCursor.isDigit_byte_iff]
      omega
    · rintro rfl
      exact absurd high (by decide)
  intro b member
  cases s with
  | scalar c =>
    cases h
    obtain ⟨digit, minus⟩ := other c rfl
    by_cases ascii : c.toNat < 0x80
    · rw [(Utf8.sequence_encodeChar c).eq_singleton ascii] at member
      cases List.mem_singleton.1 member
      constructor
      · exact (TextCursor.isDigit_byte ascii).trans digit
      · exact fun same => minus ((TextCursor.byte_inj (d := '-') ascii (by decide)).1 same)
    · exact wide ((Utf8.sequence_encodeChar c).le_of_mem (Nat.le_of_not_lt ascii) b member)
  | surrogate offset =>
    simp only [Symbol.bytes?, Option.ite_none_right_eq_some, Option.some_inj] at h
    obtain ⟨range, rfl⟩ := h
    have byte : (UInt8.ofNat (offset.val - 0x400)).toNat = offset.val - 0x400 :=
      UInt8.toNat_ofNat_of_lt' (by simp only [UInt8.size]; omega)
    rw [List.mem_singleton.1 member]
    apply wide
    omega

theorem Symbol.bytes?_ne_nil {s : Symbol} {bytes : List UInt8} (h : s.bytes? = some bytes) :
    bytes ≠ [] := by
  cases s with
  | scalar c =>
    cases h
    exact String.utf8EncodeChar_ne_nil
  | surrogate offset =>
    simp only [Symbol.bytes?, Option.ite_none_right_eq_some, Option.some_inj] at h
    obtain ⟨_, rfl⟩ := h
    exact List.cons_ne_nil _ _

theorem Symbol.apart_of_encode? {s : List Symbol} {bytes : List UInt8} (h : encode? s = some bytes)
    (other : ∀ c, s.getLast? = some (.scalar c) → c.isDigit = false ∧ c ≠ '-') :
    ∀ b, bytes.getLast? = some b → Cursor.Apart b := by
  intro b final
  obtain rfl | ⟨before, last, rfl⟩ := s.eq_nil_or_concat'
  · cases h
    cases final
  -- the bytes of the last symbol come last, and there are some
  · rw [encode?_append, Option.bind_eq_some_iff] at h
    obtain ⟨x, _, h⟩ := h
    obtain ⟨y, encoded, rfl⟩ := Option.map_eq_some_iff.1 h
    cases here : last.bytes? with
    | none => simp [encode?, here] at encoded
    | some z =>
      have same : z = y := by
        simpa [encode?, here] using encoded
      subst same
      rw [List.getLast?_append_of_ne_nil _ (bytes?_ne_nil here)] at final
      apply apart_of_bytes? here _ b (List.mem_of_mem_getLast? final)
      rintro c rfl
      exact other c List.getLast?_concat

/-! ## Compiling -/

def boundsText (first second : Token.Numeral) : List Symbol :=
  Symbol.ofText first.text ++ .scalar '.' :: .scalar '.' :: (Symbol.ofText second.text ++ [.scalar '}'])

/-- Symbols that stand for themselves, and a range after them. -/
def rangePattern (s : List Symbol) (first second : Token.Numeral) : List Symbol :=
  s.flatMap escaped ++ .scalar '{' :: boundsText first second

def literalOf (s : List Symbol) : Program := if s = [] then [] else [.atom (.literal s)]

def rangeProgram (s : List Symbol) (low high : Int) : Program :=
  .boundary :: (literalOf s ++ [.atom (.number low high)])

section Compiling

variable {s : List Symbol} {first second : Token.Numeral}

theorem Token.Numeral.Legible.slash_not_mem {n : Token.Numeral} (legible : n.Legible) :
    .scalar '/' ∉ Symbol.ofText n.text := by
  intro member
  obtain ⟨c, here, same⟩ := List.mem_map.1 member
  cases same
  unfold Token.Numeral.text at here
  split at here
  · obtain minus | here := List.mem_cons.1 here
    · cases minus
    · cases legible.digits _ here
  · cases legible.digits _ here

theorem slash_not_mem_boundsText (legible : first.Legible) (legible' : second.Legible) :
    .scalar '/' ∉ .scalar '{' :: boundsText first second := by
  simp [boundsText, legible.slash_not_mem, legible'.slash_not_mem]

theorem slash_not_mem_rangePattern (free : .scalar '/' ∉ s) (legible : first.Legible)
    (legible' : second.Legible) : .scalar '/' ∉ rangePattern s first second := by
  rw [rangePattern, List.mem_append, not_or]
  exact ⟨not_mem_flatMap_escaped (by decide) free, slash_not_mem_boundsText legible legible'⟩

theorem readToken_boundsText (legible : first.Legible) (legible' : second.Legible)
    (within : first.digits.length ≤ Decimal.digitLimit)
    (within' : second.digits.length ≤ Decimal.digitLimit) (rest : List Symbol) :
    Token.readToken (.scalar '{') (boundsText first second ++ rest) =
      .ok ([.node (.atom (.number (min first.toInt second.toInt) (max first.toInt second.toInt)))],
        rest) := by
  have bounds : Token.readBounds (boundsText first second ++ rest) = some ((first, second), rest) :=
    Token.readBounds_eq_some_iff.2 ⟨legible, legible', by simp [boundsText]⟩
  have token := Token.ofBounds_of_length_le within within'
  simp only [Token.readToken, bounds, token]
  rfl

theorem scans_rangePattern (free : .scalar '/' ∉ s) (legible : first.Legible)
    (legible' : second.Legible) (within : first.digits.length ≤ Decimal.digitLimit)
    (within' : second.digits.length ≤ Decimal.digitLimit) :
    Scans (rangePattern s first second) (s.map .symbol ++
      [.node (.atom (.number (min first.toInt second.toInt) (max first.toInt second.toInt)))]) := by
  have read := readToken_boundsText legible legible' within within'
  have bounds := scans_cons (slash_not_mem_boundsText legible legible') (fun rest _ => read rest) scans_nil
  rw [List.append_nil, List.append_nil] at bounds
  exact scans_escaped free bounds

theorem feedAll_literalOf (free : .scalar '/' ∉ s) (a : Atom) (d : Draft) :
    d.feedAll true (s.map .symbol ++ [.node (.atom a)]) =
      { d with out := d.out.extend true (literalOf s ++ [.atom a]) } := by
  -- without symbols there is no literal in front of the node
  rw [Draft.feedAll_append]
  unfold literalOf
  split
  next empty =>
    subst empty
    rfl
  next filled =>
    rw [feedAll_symbols filled free]
    rfl

theorem compile_rangePattern (free : .scalar '/' ∉ s) (legible : first.Legible)
    (legible' : second.Legible) (within : first.digits.length ≤ Decimal.digitLimit)
    (within' : second.digits.length ≤ Decimal.digitLimit) :
    compile true (rangePattern s first second) =
      .ok (rangeProgram s (min first.toInt second.toInt) (max first.toInt second.toInt)) := by
  have slashes := slash_not_mem_rangePattern free legible legible'
  have varied (low high : Int) : Program.Varied (rangeProgram s low high) := by
    unfold rangeProgram literalOf
    split <;> simp [Program.Varied, Node.boundary, Node.Alike]
  have ends (low high : Int) : (rangeProgram s low high).getLast? ≠ some .boundary := by
    rw [rangeProgram, ← List.cons_append, List.getLast?_concat]
    simp [Node.boundary]
  have written (low high : Int) :
      writtenOf true (.boundary :: (s.map .symbol ++ [.node (.atom (.number low high))])) =
        rangeProgram s low high :=
    writtenOf_of_appends (varied low high) (feedAll_literalOf free (.number low high))
  exact compile_of_scans slashes (scans_rangePattern free legible legible' within within') (written _ _)
    (ends _ _)

end Compiling

/-! ## Matching -/

theorem derives_literalOf {s : List Symbol} {c d : Cursor} :
    Derives (literalOf s) c d ↔ c.dropSuffix s = some d := by
  unfold literalOf
  split
  next empty =>
    subst empty
    simp [Cursor.dropSuffix, Symbol.encode?, Cursor.dropBytes]
  · simp [derives_atom, Cursor.move]

/-- The number comes first, then the symbols, and then nothing is left of the component. -/
theorem derives_rangeProgram {s : List Symbol} {low high : Int} {c e : Cursor} :
    Derives (rangeProgram s low high) c e ↔ ∃ d d', c.dropNumber low high = .ok (some d) ∧
      d.dropSuffix s = some d' ∧ d'.crossBoundary = some e := by
  simp only [rangeProgram, derives_boundary_cons, derives_append, derives_atom, derives_literalOf,
    Cursor.move]
  constructor
  · rintro ⟨d', ⟨d, dropped, suffix⟩, crossed⟩
    exact ⟨d, d', dropped, suffix, crossed⟩
  · rintro ⟨d, d', dropped, suffix, crossed⟩
    exact ⟨d', ⟨d, dropped, suffix⟩, crossed⟩

theorem exists_number_of_derives {s : List Symbol} {low high : Int} {last : Component}
    {above : List (Option Component)} {e : Cursor}
    (h : Derives (rangeProgram s low high) (.within last.reverse above) e) :
    ∃ (bytes : List UInt8) (n : Token.Numeral), Symbol.encode? s = some bytes ∧
      n.Between low high ∧ last = bytes ++ Utf8.encode n.text := by
  obtain ⟨d, d', dropped, suffix, crossed⟩ := derives_rangeProgram.1 h
  obtain ⟨n, left, rest, _, between, ends, same, rfl⟩ := Cursor.dropNumber_sound dropped
  cases same
  unfold Cursor.dropSuffix at suffix
  split at suffix
  · cases suffix
  next bytes encoded =>
    rw [Cursor.dropBytes_within] at suffix
    split at suffix
    next found =>
      cases suffix
      obtain ⟨more, rfl⟩ := found
      -- the boundary is crossed only from a component that is used up
      have none_left : more = [] := by
        have cut : (bytes.reverse ++ more).drop bytes.length = more := List.drop_left' (by simp)
        rw [cut] at crossed
        cases more with
        | nil => rfl
        | cons => cases crossed
      refine ⟨bytes, n, encoded, between, ?_⟩
      rw [none_left, List.append_nil, Token.Numeral.Ends, ← List.reverse_append] at ends
      exact List.reverse_injective ends
    · cases suffix

theorem derives_of_number {s : List Symbol} {bytes : List UInt8} (encoded : Symbol.encode? s = some bytes)
    (other : ∀ c, s.getLast? = some (.scalar c) → c.isDigit = false ∧ c ≠ '-') {low high : Int}
    (short : Short low) (short' : Short high) {n : Token.Numeral} (between : n.Between low high)
    (names : List Component) :
    ∃ e, Derives (rangeProgram s low high)
      (.within (bytes ++ Utf8.encode n.text).reverse (names.map some)) e := by
  have ends : n.Ends (bytes ++ Utf8.encode n.text).reverse bytes.reverse := List.reverse_append
  have apart (b : UInt8) (first : bytes.reverse.head? = some b) : Cursor.Apart b := by
    rw [List.head?_reverse] at first
    exact Symbol.apart_of_encode? encoded other b first
  have dropped := Cursor.dropNumber_of_apart short short' between ends apart (names.map some)
  have suffix : (Cursor.within bytes.reverse (names.map some)).dropSuffix s =
      some (.within [] (names.map some)) := by
    rw [Cursor.dropSuffix, encoded]
    simp only [Cursor.dropBytes_within, if_pos (List.prefix_refl _)]
    rw [List.drop_eq_nil_of_le (by simp)]
  obtain ⟨e, crossed⟩ := exists_crossBoundary names
  exact ⟨e, derives_rangeProgram.2 ⟨_, _, dropped, suffix, crossed⟩⟩

/-- There is no choice to come back to, so the ceiling is out of reach. -/
theorem isMatch_rangeProgram {s : List Symbol} {low high : Int}
    (runnable : (rangeProgram s low high).Runnable) {path : List Component} {c : Cursor}
    (start : Cursor.start .raw path = some c) :
    (evaluate (rangeProgram s low high) c Glob.defaultCeiling).isMatch = true ↔
      ∃ e, Derives (rangeProgram s low high) c e := by
  have load : programLoad (rangeProgram s low high) = 0 := by
    unfold rangeProgram literalOf
    split <;> rfl
  have room : (programLoad (rangeProgram s low high) : Int) ≤ Glob.defaultCeiling := by
    rw [load]
    decide
  exact isMatch_iff_derives runnable start (evaluate_of_load room c)

/-- Symbols that stand for themselves, the last of which is no digit and no hyphen, and a range after
them match the paths whose last component is made of these symbols and a plain numeral in the range,
whichever way round its bounds are written. -/
theorem range_accepts_numbers {s : List Symbol} (free : .scalar '/' ∉ s)
    (other : ∀ c, s.getLast? = some (.scalar c) → c.isDigit = false ∧ c ≠ '-')
    {first second : Token.Numeral} (legible : first.Legible) (legible' : second.Legible)
    (within : first.digits.length ≤ Decimal.digitLimit)
    (within' : second.digits.length ≤ Decimal.digitLimit) :
    ∃ g, Glob.compile (rangePattern s first second) = .ok g ∧
      ∀ path : List Component, g.accepts path = true ↔
        ∃ (upper : List Component) (bytes : Component) (n : Token.Numeral),
          Symbol.encode? s = some bytes ∧
          n.Between (min first.toInt second.toInt) (max first.toInt second.toInt) ∧
          path = upper ++ [bytes ++ Utf8.encode n.text] := by
  have compiled := compile_rangePattern free legible legible' within within'
  have plain := slash_not_mem_rangePattern free legible legible'
  have left := Token.short_value legible.digits (Token.Numeral.value_of_length_le within)
  have right := Token.short_value legible'.digits (Token.Numeral.value_of_length_le within')
  have short := left.min right
  have short' := left.max right
  generalize min first.toInt second.toInt = low at compiled short ⊢
  generalize max first.toInt second.toInt = high at compiled short' ⊢
  obtain ⟨runnable, _⟩ := boundary_of_compile compiled plain
  refine ⟨⟨rangePattern s first second, rangeProgram s low high, Glob.defaultCeiling⟩, ?_, fun path => ?_⟩
  · rw [Glob.compile, Glob.compileWith, compiled]
  obtain rfl | ⟨upper, last, rfl⟩ := path.eq_nil_or_concat'
  · have start : Cursor.start .raw [] = some .root := rfl
    rw [Glob.accepts_of_start start, isMatch_rangeProgram runnable start]
    constructor
    · rintro ⟨e, derived⟩
      obtain ⟨_, _, dropped, _⟩ := derives_rangeProgram.1 derived
      cases dropped
    · rintro ⟨upper, bytes, n, _, _, same⟩
      simp at same
  · have start := start_raw_last upper last
    rw [Glob.accepts_of_start start, isMatch_rangeProgram runnable start]
    constructor
    · rintro ⟨e, derived⟩
      obtain ⟨bytes, n, encoded, between, rfl⟩ := exists_number_of_derives derived
      exact ⟨upper, bytes, n, encoded, between, rfl⟩
    · rintro ⟨upper', bytes, n, encoded, between, same⟩
      obtain ⟨rfl, only⟩ := List.append_inj' same rfl
      rw [List.singleton_inj.1 only]
      exact derives_of_number encoded other short short' between upper.reverse

theorem range_accepts_numbers_version :
    .scalar '/' ∉ Symbol.ofText ['v'] ∧
      (∀ c, (Symbol.ofText ['v']).getLast? = some (.scalar c) → c.isDigit = false ∧ c ≠ '-') ∧
      ∃ g, Glob.compile (Symbol.ofText "\\v{10..-3}".toList) = .ok g ∧
        g.accepts [[97], [118, 45, 51]] = true := by
  have other (c : Char) (last : (Symbol.ofText ['v']).getLast? = some (.scalar c)) :
      c.isDigit = false ∧ c ≠ '-' := by
    cases last
    decide
  have ten : Token.Numeral.Legible ⟨false, ['1', '0']⟩ := ⟨by decide, by simp⟩
  have minusThree : Token.Numeral.Legible ⟨true, ['3']⟩ := ⟨by decide, by simp⟩
  obtain ⟨g, made, accepts⟩ := range_accepts_numbers (by decide) other ten minusThree
    (by simp [Decimal.digitLimit]) (by simp [Decimal.digitLimit])
  have encoded : Symbol.encode? (Symbol.ofText ['v']) = some [118] := by
    cbv
  have path : [[97], [118, 45, 51]] = [[97]] ++ [[118] ++ Utf8.encode ['-', '3']] := by
    cbv
  have between : Token.Numeral.Between (-3) 10 ⟨true, ['3']⟩ :=
    ⟨⟨minusThree, by decide⟩, by decide, by decide⟩
  exact ⟨by decide, other, g, made, (accepts _).2 ⟨[[97]], [118], ⟨true, ['3']⟩, encoded, between, path⟩⟩

end EditorSettings
