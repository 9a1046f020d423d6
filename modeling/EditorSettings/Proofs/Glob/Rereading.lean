import EditorSettings.Proofs.Glob.Rendering

/-! # Reading what was written

The pattern of an atom is read as that atom, whatever follows it: a class as its members, a numeric
range as its bounds, an escaped symbol as itself.  A run has to be followed by something else than a
star, and the brace of a choice by something else than a number.
-/

namespace EditorSettings

/-! ## Reading classes -/

theorem codePoint_ofCodePoint {n : Nat} (h : n < 0x110000) : (Symbol.ofCodePoint n).codePoint = n := by
  unfold Symbol.ofCodePoint
  split
  next valid => exact Utf8.toNat_ofNat valid
  next surrogate =>
    simp only [Nat.isValidChar, not_or, not_and, Nat.not_lt] at surrogate
    have offset : n - 0xD800 < 0x800 := by omega
    simp only [Symbol.codePoint, Fin.ofNat, Nat.mod_eq_of_lt offset]
    omega

theorem classRanges_escaped (before : Option Symbol) (text rest : List Symbol) :
    Token.classRanges before (text.flatMap escaped ++ .scalar ']' :: rest) =
      some (text.map fun s => (s.codePoint, s.codePoint), rest) := by
  induction text generalizing before with
  | nil =>
    unfold Token.classRanges
    simp
  | cons s text ih =>
    rw [List.flatMap_cons, List.append_assoc]
    simp [escaped, Token.classRanges, ih, Token.withRange]

theorem ofRanges_members {members : CodeSet} (bounded : ∀ n ∈ members, n < 0x110000) :
    CodeSet.ofRanges ((members.toList.map Symbol.ofCodePoint).map fun s => (s.codePoint, s.codePoint)) =
      members := by
  have codes : (members.toList.map Symbol.ofCodePoint).map (fun s => (s.codePoint, s.codePoint)) =
      members.toList.map fun n => (n, n) := by
    rw [List.map_map]
    apply List.map_congr_left
    intro n member
    simp [codePoint_ofCodePoint (bounded n (CodeSet.mem_toList.1 member))]
  rw [codes]
  exact CodeSet.ofList_toList members

theorem ofClass_canonical {members : CodeSet} {inclusive : Bool}
    (canonical : (Atom.charClass members inclusive).Canonical) :
    Token.ofClass inclusive members = [.node (.atom (.charClass members inclusive))] := by
  obtain ⟨free, size⟩ := canonical
  unfold Token.ofClass
  rw [CodeSet.remove_of_not_mem free]
  cases inclusive with
  | true =>
    have several : members.single? = none := CodeSet.single?_of_size size
    have nonempty : members.isEmpty = false := CodeSet.isEmpty_of_size (Nat.le_of_succ_le size)
    simp [several, nonempty]
  | false =>
    have nonempty : members.isEmpty = false := CodeSet.isEmpty_of_size size
    simp [nonempty]

theorem readClass_render {members : CodeSet} {inclusive : Bool}
    (canonical : (Atom.charClass members inclusive).Canonical)
    (writable : (Atom.charClass members inclusive).Writable) (rest : List Symbol) :
    Token.readClass ((if inclusive then [] else [.scalar '!']) ++
      (renderMembers members ++ .scalar ']' :: rest)) =
        some ([.node (.atom (.charClass members inclusive))], rest) := by
  have ranges := classRanges_escaped none (members.toList.map Symbol.ofCodePoint) rest
  have set := ofRanges_members writable
  have tokens := ofClass_canonical canonical
  unfold renderMembers
  generalize members.toList.map Symbol.ofCodePoint = text at ranges set ⊢
  cases inclusive with
  -- what starts with a backslash is not taken for an exclusive class
  | true =>
    have plain : (text.flatMap escaped ++ .scalar ']' :: rest).head? ≠ some (.scalar '!') := by
      cases text <;> simp [escaped]
    simp only [Token.readClass, if_true, List.nil_append, if_neg plain, decide_eq_false plain,
      Bool.not_false, ranges, Option.map_some, set, tokens]
  | false => simp [Token.readClass, ranges, set, tokens]

/-! ## Reading numbers -/

namespace Token

def Numeral.text (n : Numeral) : Text := if n.negative then '-' :: n.digits else n.digits

/-- There are digits, and nothing else after the sign. -/
structure Numeral.Legible (n : Numeral) : Prop where
  ne : n.digits ≠ []
  digits : ∀ c ∈ n.digits, c.isDigit

theorem spanDigits_eq_iff {s rest : List Symbol} {digits : Text} :
    spanDigits s = (digits, rest) ↔ s = Symbol.ofText digits ++ rest ∧ (∀ c ∈ digits, c.isDigit) ∧
      ∀ c, rest.head? = some (.scalar c) → c.isDigit = false := by
  constructor
  · intro h
    fun_induction spanDigits s generalizing digits with
    | case1 =>
      cases h
      simp [Symbol.ofText]
    | case2 =>
      cases h
      simp [Symbol.ofText]
    | case3 c rest' digit ih =>
      cases h
      obtain ⟨split, all, stop⟩ := ih rfl
      exact ⟨congrArg (Symbol.scalar c :: ·) split, List.forall_mem_cons.2 ⟨digit, all⟩, stop⟩
    | case4 c rest' other =>
      cases h
      refine ⟨rfl, List.forall_mem_nil _, ?_⟩
      intro d same
      cases same
      simpa using other
  · rintro ⟨rfl, all, stop⟩
    induction digits with
    | nil =>
      cases rest with
      | nil => rfl
      | cons symbol more =>
        cases symbol with
        | surrogate => rfl
        | scalar c => simp [Symbol.ofText, spanDigits, stop c rfl]
    | cons d digits ih =>
      obtain ⟨digit, later⟩ := List.forall_mem_cons.1 all
      have read := ih later
      simp only [Symbol.ofText] at read
      simp [Symbol.ofText, spanDigits, digit, read]

theorem readNumeral_eq_some_iff {s rest : List Symbol} {n : Numeral} :
    readNumeral s = some (n, rest) ↔ n.Legible ∧ s = Symbol.ofText n.text ++ rest ∧
      ∀ c, rest.head? = some (.scalar c) → c.isDigit = false := by
  constructor
  · intro h
    unfold readNumeral at h
    split at h
    · cases h
    next filled =>
      cases h
      obtain ⟨split, all, stop⟩ := spanDigits_eq_iff.1 (Prod.eta (spanDigits (unsigned s))).symm
      refine ⟨⟨by simpa using filled, all⟩, ?_, stop⟩
      by_cases minus : startsNegative s
      · obtain ⟨tail, rfl⟩ : ∃ tail, s = .scalar '-' :: tail := by
          rw [startsNegative, decide_eq_true_eq] at minus
          exact List.head?_eq_some_iff.1 minus
        exact congrArg (Symbol.scalar '-' :: ·) split
      · rw [Bool.not_eq_true] at minus
        simpa [unsigned, Numeral.text, minus] using split
  · rintro ⟨legible, rfl, stop⟩
    obtain ⟨negative, digits⟩ := n
    have span : spanDigits (Symbol.ofText digits ++ rest) = (digits, rest) :=
      spanDigits_eq_iff.2 ⟨rfl, legible.digits, stop⟩
    have filled : digits.isEmpty = false := by simpa using legible.ne
    cases negative with
    | true =>
      have minus : startsNegative (Symbol.ofText ('-' :: digits) ++ rest) = true := rfl
      have tail : (Symbol.ofText ('-' :: digits) ++ rest).tail = Symbol.ofText digits ++ rest := rfl
      simp [readNumeral, unsigned, Numeral.text, minus, tail, span, filled]
    | false =>
      -- a digit in front is no minus sign
      have plain : startsNegative (Symbol.ofText digits ++ rest) = false := by
        obtain ⟨d, more, rfl⟩ := List.exists_cons_of_ne_nil legible.ne
        have digit : d.isDigit := legible.digits d List.mem_cons_self
        have other : d ≠ '-' := by
          rintro rfl
          cases digit
        simpa [startsNegative, Symbol.ofText] using other
      simp [readNumeral, unsigned, Numeral.text, plain, span, filled]

/-- The integer that a numeral stands for, however many digits it has. -/
def Numeral.toInt (n : Numeral) : Int :=
  if n.negative then -(Decimal.value n.digits : Int) else Decimal.value n.digits

theorem Numeral.value_of_length_le {n : Numeral} (within : n.digits.length ≤ Decimal.digitLimit) :
    n.value = .ok n.toInt := by
  rw [Numeral.value, Decimal.read_eq_ok within]
  rfl

theorem ofBounds_of_length_le {first second : Numeral}
    (within : first.digits.length ≤ Decimal.digitLimit)
    (within' : second.digits.length ≤ Decimal.digitLimit) : ofBounds first second =
      .ok (.node (.atom (.number (min first.toInt second.toInt) (max first.toInt second.toInt)))) := by
  rw [ofBounds, Numeral.value_of_length_le within, Numeral.value_of_length_le within']

theorem readBounds_eq_some_iff {s rest : List Symbol} {first second : Numeral} :
    readBounds s = some ((first, second), rest) ↔ first.Legible ∧ second.Legible ∧
      s = Symbol.ofText first.text ++ .scalar '.' :: .scalar '.' ::
        (Symbol.ofText second.text ++ .scalar '}' :: rest) := by
  have ends {c : Char} (other : c.isDigit = false) (rest : List Symbol) :
      ∀ d, (Symbol.scalar c :: rest).head? = some (.scalar d) → d.isDigit = false := by
    intro d same
    cases same
    exact other
  constructor
  · intro h
    unfold readBounds at h
    split at h
    next left rest' reads =>
      split at h
      next right rest'' reads' =>
        cases h
        obtain ⟨legible, rfl, _⟩ := readNumeral_eq_some_iff.1 reads
        obtain ⟨legible', rfl, _⟩ := readNumeral_eq_some_iff.1 reads'
        exact ⟨legible, legible', rfl⟩
      · cases h
    · cases h
  · rintro ⟨legible, legible', rfl⟩
    have left := readNumeral_eq_some_iff.2 ⟨legible, rfl, ends (c := '.') rfl
      (.scalar '.' :: (Symbol.ofText second.text ++ .scalar '}' :: rest))⟩
    have right := readNumeral_eq_some_iff.2 ⟨legible', rfl, ends (c := '}') rfl rest⟩
    simp only [readBounds, left, right]

end Token

def numeralOf (n : Int) : Token.Numeral := ⟨decide (n < 0), Decimal.write n.natAbs⟩

theorem legible_numeralOf (n : Int) : (numeralOf n).Legible where
  ne := Decimal.write_ne_nil _
  digits _ := Decimal.isDigit_of_mem_write

theorem text_numeralOf (n : Int) : (numeralOf n).text = Decimal.writeInt n := by
  cases n with
  | ofNat n => rfl
  | negSucc n => simp [numeralOf, Token.Numeral.text, Decimal.writeInt, Int.negSucc_lt_zero]

theorem toInt_numeralOf (n : Int) : (numeralOf n).toInt = n := by
  unfold Token.Numeral.toInt numeralOf
  rw [Decimal.value_write]
  by_cases negative : n < 0
  · simp only [negative, decide_true, if_true]
    omega
  · simp only [negative, decide_false, Bool.false_eq_true, if_false]
    omega

theorem readBounds_render (low high : Int) (rest : List Symbol) :
    Token.readBounds (Symbol.ofText (Decimal.writeInt low) ++ .scalar '.' :: .scalar '.' ::
      (Symbol.ofText (Decimal.writeInt high) ++ .scalar '}' :: rest)) =
        some ((numeralOf low, numeralOf high), rest) := by
  rw [← text_numeralOf low, ← text_numeralOf high]
  exact Token.readBounds_eq_some_iff.2 ⟨legible_numeralOf low, legible_numeralOf high, rfl⟩

theorem ofBounds_numeralOf {low high : Int} (ordered : low ≤ high) (short : Short low)
    (short' : Short high) :
    Token.ofBounds (numeralOf low) (numeralOf high) = .ok (.node (.atom (.number low high))) := by
  have read : Token.ofBounds (numeralOf low) (numeralOf high) = _ :=
    Token.ofBounds_of_length_le short short'
  rwa [toInt_numeralOf, toInt_numeralOf, Int.min_eq_left ordered, Int.max_eq_right ordered] at read

theorem readBounds_of_head {s : List Symbol}
    (other : ∀ c : Char, s.head? = some (.scalar c) → c.isDigit = false ∧ c ≠ '-') :
    Token.readBounds s = none := by
  have none_here : Token.readNumeral s = none := by
    unfold Token.readNumeral Token.unsigned Token.startsNegative
    match s with
    | [] => rfl
    | .surrogate _ :: rest => simp [Token.spanDigits]
    | .scalar c :: rest =>
      obtain ⟨digit, minus⟩ := other c rfl
      simp [Token.spanDigits, digit, minus]
  rw [Token.readBounds, none_here]

/-! ## Nodes that are read again -/

/-- The pattern of a node is read as tokens that push the node.  What follows the pattern of a run has
to start with something else than a star. -/
def Node.Rereads (n : Node) : Prop :=
  ∃ first : List Token,
    (∀ d : Draft, d.feedAll true first = { d with out := d.out.push true n }) ∧
      ∀ s ts, (∀ crossing, n = .run crossing → s.head? ≠ some (.scalar '*')) → Scans s ts →
        Scans (n.render ++ s) (first ++ ts)

theorem scans_escaped {text s : List Symbol} {ts : List Token} (free : .scalar '/' ∉ text)
    (h : Scans s ts) : Scans (text.flatMap escaped ++ s) (text.map .symbol ++ ts) := by
  induction text with
  | nil => exact h
  | cons c text ih =>
    rw [List.mem_cons, not_or] at free
    have later := ih free.2
    have here : .scalar '/' ∉ [.scalar '\\', c] := by
      simpa using free.1
    have read (rest : List Symbol) :
        Token.readToken (.scalar '\\') ([c] ++ rest) = .ok ([.symbol c], rest) := by
      simp [Token.readToken]
    have piece := scans_cons here (fun rest _ => read rest) later
    exact piece

theorem feedAll_symbols {text : List Symbol} (nonempty : text ≠ []) (free : .scalar '/' ∉ text)
    (d : Draft) :
    d.feedAll true (text.map .symbol) = { d with out := d.out.push true (.atom (.literal text)) } := by
  induction text generalizing d with
  | nil => exact absurd rfl nonempty
  | cons c text ih =>
    rw [List.mem_cons, not_or] at free
    have first : d.feed true (.symbol c) = { d with out := d.out.push true (.symbol c) } := by
      simp only [Draft.feed, Draft.pushSymbol, Builder.pushSymbol, if_neg (Ne.symm free.1)]
    -- the literal of the later symbols is merged with the first
    cases text with
    | nil => exact first
    | cons c' text =>
      have later := ih (List.cons_ne_nil c' text) free.2 (d.feed true (.symbol c))
      have joined : Builder.merge? true (.symbol c) (.atom (.literal (c' :: text))) =
          some (.atom (.literal (c :: c' :: text))) := rfl
      rw [List.map_cons, Draft.feedAll, List.foldl_cons]
      rw [Draft.feedAll] at later
      rw [later, first]
      simp only [Builder.push_push_of_merge? _ joined]

theorem rereads_node {n : Node} {c : Symbol} {text : List Symbol} (render : n.render = c :: text)
    (free : .scalar '/' ∉ c :: text)
    (read : ∀ rest : List Symbol,
      (∀ crossing, n = .run crossing → rest.head? ≠ some (.scalar '*')) →
        Token.readToken c (text ++ rest) = .ok ([.node n], rest)) : n.Rereads := by
  refine ⟨[.node n], fun d => rfl, ?_⟩
  intro s ts follows h
  rw [render]
  apply scans_cons free _ h
  intro rest same
  apply read
  intro crossing run star
  exact follows crossing run (same _ star)

theorem rereads_atom {a : Atom} (canonical : a.Canonical) (writable : a.Writable) :
    Node.Rereads (.atom a) := by
  cases a with
  | boundary => exact ⟨[.boundary], fun d => rfl, fun s ts _ h => scans_slash h⟩
  | anyChar => exact rereads_node rfl (by decide) fun rest _ => by simp [Token.readToken]
  | literal text =>
    obtain ⟨nonempty, free⟩ := canonical
    exact ⟨text.map .symbol, feedAll_symbols nonempty free, fun s ts _ h => scans_escaped free h⟩
  | charClass members inclusive =>
    apply rereads_node rfl (slash_not_mem_render canonical nofun)
    intro rest _
    have read := readClass_render canonical writable rest
    simp [Token.readToken, read]
  | number low high =>
    apply rereads_node rfl (slash_not_mem_render canonical nofun)
    intro rest _
    have read := readBounds_render low high rest
    have bounds := ofBounds_numeralOf canonical writable.1 writable.2
    simp [Token.readToken, read, bounds]
  | root => exact canonical.elim

theorem rereads_run (crossing : Bool) : Node.Rereads (.run crossing) := by
  cases crossing with
  | true => exact rereads_node rfl (by decide) fun rest _ => by simp [Token.readToken]
  | false =>
    apply rereads_node rfl (by decide)
    intro rest follows
    have single := follows false rfl
    simp [Token.readToken, single]

end EditorSettings
