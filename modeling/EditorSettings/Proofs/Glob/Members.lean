import EditorSettings.Proofs.Glob.Characters
import EditorSettings.Proofs.Glob.Inverse
import EditorSettings.Proofs.Glob.Upstream

/-! # What a class matches

A class in which every member is escaped matches the names that are one of its characters, and no other.
Its members may be listed more than once, as ranges that overlap, and in any order.

* `Atom.OneOf` says of an atom that it takes one whole character of some set off a name.  A class does, and
  so does the literal that a class of one member is made (`exists_oneOf_ofClass`).
* `ClassItem` is a member or a range with its ends in order, and `classRanges_items` says that the items of
  a class are read one by one, whatever was read before them.
-/

namespace EditorSettings

/-! ## One character of a name -/

/-- The atom takes a character off a name, if it is one of these. -/
def Atom.OneOf (a : Atom) (P : Char → Prop) : Prop :=
  ∀ (left : List UInt8) (above : List (Option Component)) (d : Cursor),
    (Cursor.within left above).move a = .ok (some d) ↔
      ∃ c rest, P c ∧ left = (String.utf8EncodeChar c).reverse ++ rest ∧ d = .within rest above

section OneOf

variable {a : Atom} {P Q : Char → Prop}

theorem Atom.OneOf.congr (h : a.OneOf P) (same : ∀ c, P c ↔ Q c) : a.OneOf Q := by
  have sets : P = Q := funext fun c => propext (same c)
  exact sets ▸ h

theorem Atom.OneOf.inside (h : a.OneOf P) : a ≠ .boundary ∧ a ≠ .root := by
  -- either anchor moves where nothing is left of a name, and there is no character to take
  have stuck : (Cursor.within [] []).move a ≠ .ok (some .root) := by
    intro moved
    obtain ⟨c, rest, _, bytes, _⟩ := (h [] [] .root).1 moved
    simp [String.utf8EncodeChar_ne_nil] at bytes
  constructor
  · rintro rfl
    exact stuck rfl
  · rintro rfl
    exact stuck rfl

theorem oneOf_literal (c : Char) : (Atom.literal [.scalar c]).OneOf (· = c) := by
  intro left above d
  have encoded : Symbol.encode? [.scalar c] = some (String.utf8EncodeChar c) :=
    (Symbol.encode?_ofText [c]).trans (congrArg some (Utf8.encode_singleton c))
  simp only [Cursor.move, Cursor.dropSuffix, encoded, Cursor.dropBytes_within, Except.ok.injEq,
    Option.ite_none_right_eq_some, Option.some.injEq]
  constructor
  · rintro ⟨⟨rest, rfl⟩, rfl⟩
    exact ⟨c, rest, rfl, rfl, by rw [List.drop_left' List.length_reverse]⟩
  · rintro ⟨_, rest, rfl, rfl, rfl⟩
    exact ⟨List.prefix_append _ _, by rw [List.drop_left' List.length_reverse]⟩

theorem move_charClass {members : CodeSet} {inclusive : Bool} {c d : Cursor} :
    c.move (.charClass members inclusive) = .ok (some d) ↔
      ∃ char, c.popChar = some (d, char) ∧ char ≠ '/' ∧ members.contains char.toNat = inclusive := by
  rw [Cursor.move, Except.ok.injEq]
  cases c.popChar with
  | none => simp
  | some popped =>
    obtain ⟨rest, char⟩ := popped
    simp only [Option.some.injEq, Prod.mk.injEq]
    constructor
    · intro taken
      split at taken
      · cases taken
      next member =>
        rw [not_or, ne_eq, not_not] at member
        exact ⟨char, ⟨Option.some.inj taken, rfl⟩, member⟩
    · rintro ⟨_, ⟨rfl, rfl⟩, ordinary, member⟩
      rw [if_neg (by simp [ordinary, member])]

theorem oneOf_charClass (members : CodeSet) (inclusive : Bool) :
    (Atom.charClass members inclusive).OneOf fun c => c ≠ '/' ∧ members.contains c.toNat = inclusive := by
  intro left above d
  rw [move_charClass]
  cases left with
  | nil =>
    constructor
    -- a boundary is popped as a slash, which is not taken
    · rintro ⟨c, popped, ordinary, _⟩
      obtain ⟨e, _, same⟩ := Option.map_eq_some_iff.1 popped
      cases same
      exact absurd rfl ordinary
    · rintro ⟨c, rest, _, bytes, _⟩
      simp [String.utf8EncodeChar_ne_nil] at bytes
  | cons b more =>
    simp only [Cursor.popChar_cons_iff]
    constructor
    · rintro ⟨c, ⟨rest, bytes, same⟩, member⟩
      exact ⟨c, rest, member, bytes, same⟩
    · rintro ⟨c, rest, member, bytes, same⟩
      exact ⟨c, ⟨rest, bytes, same⟩, member⟩

theorem derives_of_oneOf (h : a.OneOf P) (last : Component) (names : List Component) :
    (∃ e, Derives [.boundary, .atom a] (.within last.reverse (names.map some)) e) ↔
      ∃ c, last = String.utf8EncodeChar c ∧ P c := by
  simp only [derives_boundary_cons, derives_atom]
  constructor
  · rintro ⟨e, d, moved, crossed⟩
    obtain ⟨c, rest, member, bytes, rfl⟩ := (h _ _ _).1 moved
    cases rest with
    | nil =>
      rw [List.append_nil] at bytes
      exact ⟨c, List.reverse_injective bytes, member⟩
    | cons => cases crossed
  · rintro ⟨c, rfl, member⟩
    obtain ⟨e, crossed⟩ := exists_crossBoundary names
    exact ⟨e, _, (h _ _ _).2 ⟨c, [], member, (List.append_nil _).symm, rfl⟩, crossed⟩

theorem accepts_of_oneOf {pattern : List Symbol} (plain : .scalar '/' ∉ pattern)
    (compiled : compile true pattern = .ok [.boundary, .atom a]) (h : a.OneOf P) :
    ∃ g, Glob.compile pattern = .ok g ∧ ∀ path : List Component, g.accepts path = true ↔
      ∃ upper c, path = upper ++ [String.utf8EncodeChar c] ∧ P c := by
  have made : Glob.compile pattern = .ok ⟨pattern, [.boundary, .atom a], Glob.defaultCeiling⟩ := by
    rw [Glob.compile, Glob.compileWith, compiled]
  refine ⟨_, made, fun path => ?_⟩
  obtain ⟨runnable, _⟩ := boundary_of_compile compiled plain
  have room : programLoad [.boundary, .atom a] ≤ Glob.defaultCeiling := by
    have load : programLoad [.boundary, .atom a] = 0 := rfl
    rw [load]
    decide
  obtain rfl | ⟨upper, last, rfl⟩ := path.eq_nil_or_concat'
  · have start : Cursor.start .raw [] = some .root := rfl
    rw [Glob.accepts_of_start start, isMatch_iff_derives runnable start (evaluate_of_load room _)]
    simp only [derives_boundary_cons, derives_atom]
    constructor
    · rintro ⟨e, d, moved, crossed⟩
      obtain ⟨rfl, _⟩ := move_root h.inside moved
      cases crossed
    · rintro ⟨upper, c, same, _⟩
      simp at same
  · have start := start_raw_last upper last
    rw [Glob.accepts_of_start start, isMatch_iff_derives runnable start (evaluate_of_load room _),
      derives_of_oneOf h]
    constructor
    · rintro ⟨c, rfl, member⟩
      exact ⟨upper, c, rfl, member⟩
    · rintro ⟨upper', c, same, member⟩
      exact ⟨c, List.singleton_inj.1 (List.append_inj' same rfl).2, member⟩

end OneOf

/-! ## Tokens of a class -/

theorem mem_remove_slash {members : CodeSet} {c : Char} (ordinary : c ≠ '/') :
    c.toNat ∈ members.remove '/'.toNat ↔ c.toNat ∈ members := by
  have code : c.toNat ≠ '/'.toNat := fun same => ordinary (Char.toNat_inj.1 same)
  rw [CodeSet.mem_remove]
  exact and_iff_right code

section OfClass

variable {members : CodeSet} {c : Char}

/-- With a member that is no slash, a class is a node, unless that is the only member. -/
theorem ofClass_cases (ordinary : c ≠ '/') (member : c.toNat ∈ members) (inclusive : Bool) :
    Token.ofClass inclusive members =
        [.node (.atom (.charClass (members.remove '/'.toNat) inclusive))] ∨
      (inclusive = true ∧ Token.ofClass inclusive members = [.symbol (.scalar c)] ∧
        ∀ n, n ∈ members.remove '/'.toNat ↔ n = c.toNat) := by
  have kept := (mem_remove_slash ordinary).2 member
  have filled : (members.remove '/'.toNat).isEmpty = false := by
    rw [← Bool.not_eq_true, CodeSet.isEmpty_iff]
    exact fun none => none _ kept
  unfold Token.ofClass
  simp only [filled]
  cases inclusive with
  | false => exact .inl rfl
  | true =>
    cases single : (members.remove '/'.toNat).single? with
    | none => exact .inl rfl
    | some n =>
      have only (m : Nat) := CodeSet.mem_iff_of_single? single (m := m)
      obtain rfl := (only _).1 kept
      have symbol : Symbol.ofCodePoint c.toNat = .scalar c := Symbol.ofCodePoint_codePoint (.scalar c)
      exact .inr ⟨rfl, by simp [symbol], only⟩

/-- A class with a member takes its characters off a name, or all others, also if it is made a literal. -/
theorem exists_oneOf_ofClass (ordinary : c ≠ '/') (member : c.toNat ∈ members) (inclusive : Bool) :
    ∃ a, (∀ d : Draft, d.feedAll true (Token.ofClass inclusive members) =
        { d with out := d.out.push true (.atom a) }) ∧
      a.OneOf fun c => c ≠ '/' ∧ (c.toNat ∈ members ↔ inclusive = true) := by
  obtain tokens | ⟨rfl, tokens, only⟩ := ofClass_cases ordinary member inclusive
  · rw [tokens]
    refine ⟨_, fun d => rfl, (oneOf_charClass _ inclusive).congr fun c => ?_⟩
    apply and_congr_right
    intro ordinary
    rw [← mem_remove_slash ordinary, ← CodeSet.contains_iff]
    cases inclusive <;> simp
  · rw [tokens]
    have free : .scalar '/' ∉ [Symbol.scalar c] := by
      simpa using ordinary.symm
    refine ⟨_, feedAll_symbols (List.cons_ne_nil _ _) free, (oneOf_literal c).congr fun d => ?_⟩
    constructor
    · rintro rfl
      exact ⟨ordinary, by simp [member]⟩
    · rintro ⟨ordinary', same⟩
      have listed := (mem_remove_slash ordinary').2 (same.2 rfl)
      exact Char.toNat_inj.1 ((only _).1 listed)

end OfClass

/-! ## Items -/

/-- What a class lists: one character, or a range of them with its ends in order. -/
inductive ClassItem
  | one (c : Char) (ordinary : c ≠ '/')
  | range (low high : Char) (ordered : low ≤ high) (ordinary : low ≠ '/') (ordinary' : high ≠ '/')

namespace ClassItem

def text : ClassItem → List Symbol
  | .one c _ => escaped (.scalar c)
  | .range low high _ _ _ => escaped (.scalar low) ++ .scalar '-' :: escaped (.scalar high)

/-- What an item is read as: the first end of a range is a member before it starts a range. -/
def ranges : ClassItem → List (Nat × Nat)
  | .one c _ => [(c.toNat, c.toNat)]
  | .range low high _ _ _ => [(low.toNat, low.toNat), (low.toNat, high.toNat)]

def Lists : ClassItem → Char → Prop
  | .one c _, d => d = c
  | .range low high _ _ _, d => low ≤ d ∧ d ≤ high

instance : (item : ClassItem) → (c : Char) → Decidable (item.Lists c)
  | .one d _, c => inferInstanceAs (Decidable (c = d))
  | .range low high _ _ _, c => inferInstanceAs (Decidable (low ≤ c ∧ c ≤ high))

theorem lists_iff {item : ClassItem} {c : Char} :
    item.Lists c ↔ ∃ r ∈ item.ranges, r.1 ≤ c.toNat ∧ c.toNat ≤ r.2 := by
  cases item with
  | one d _ =>
    have same : c = d ↔ d.toNat ≤ c.toNat ∧ c.toNat ≤ d.toNat := by
      rw [← Char.toNat_inj]
      omega
    simpa [Lists, ranges] using same
  | range low high ordered _ _ =>
    have order : low.toNat ≤ high.toNat := ordered
    have inside : (low ≤ c ∧ c ≤ high) ↔ low.toNat ≤ c.toNat ∧ c.toNat ≤ high.toNat := Iff.rfl
    simp only [Lists, ranges, inside, List.mem_cons, List.not_mem_nil, or_false, exists_eq_or_imp,
      exists_eq_left]
    omega

theorem slash_not_mem_text (item : ClassItem) : .scalar '/' ∉ item.text := by
  cases item with
  | one c ordinary => simp [text, escaped, ordinary.symm]
  | range low high _ ordinary ordinary' => simp [text, escaped, ordinary.symm, ordinary'.symm]

/-- Every item lists a character that is no slash. -/
theorem exists_lists (item : ClassItem) : ∃ c, c ≠ '/' ∧ item.Lists c := by
  cases item with
  | one c ordinary => exact ⟨c, ordinary, rfl⟩
  | range low high ordered ordinary _ => exact ⟨low, ordinary, Char.le_refl _, ordered⟩

end ClassItem

def Listed (items : List ClassItem) (c : Char) : Prop := c ≠ '/' ∧ ∃ item ∈ items, item.Lists c

instance (items : List ClassItem) (c : Char) : Decidable (Listed items c) :=
  inferInstanceAs (Decidable (c ≠ '/' ∧ ∃ item ∈ items, item.Lists c))

/-- A class of items, or of everything but these. -/
def classPattern (inclusive : Bool) (items : List ClassItem) : List Symbol :=
  .scalar '[' :: ((if inclusive then [] else [.scalar '!']) ++
    (items.flatMap ClassItem.text ++ [.scalar ']']))

section Items

variable {items : List ClassItem}

theorem classRanges_items (before : Option Symbol) (items : List ClassItem) (rest : List Symbol) :
    Token.classRanges before (items.flatMap ClassItem.text ++ .scalar ']' :: rest) =
      some (items.flatMap ClassItem.ranges, rest) := by
  induction items generalizing before with
  | nil =>
    unfold Token.classRanges
    simp
  | cons item items ih =>
    rw [List.flatMap_cons, List.flatMap_cons, List.append_assoc]
    cases item with
    | one c ordinary =>
      simp [ClassItem.text, ClassItem.ranges, escaped, Token.classRanges, ih, Token.withRange]
    | range low high ordered ordinary ordinary' =>
      simp [ClassItem.text, ClassItem.ranges, escaped, Token.classRanges, ih, Token.withRange]

theorem readClass_items (ne : items ≠ []) (inclusive : Bool) (rest : List Symbol) :
    Token.readClass ((if inclusive then [] else [.scalar '!']) ++
        (items.flatMap ClassItem.text ++ .scalar ']' :: rest)) =
      some (Token.ofClass inclusive (CodeSet.ofRanges (items.flatMap ClassItem.ranges)), rest) := by
  have ranges := classRanges_items none items rest
  cases inclusive with
  | true =>
    -- an item starts with a backslash, so the class is not taken for an exclusive one
    have plain : (items.flatMap ClassItem.text ++ .scalar ']' :: rest).head? ≠ some (.scalar '!') := by
      obtain ⟨item, others, rfl⟩ := List.exists_cons_of_ne_nil ne
      cases item <;> simp [ClassItem.text, escaped]
    simp only [Token.readClass, if_true, List.nil_append, if_neg plain, decide_eq_false plain,
      Bool.not_false, ranges, Option.map_some]
  | false => simp [Token.readClass, ranges]

theorem slash_not_mem_classPattern (inclusive : Bool) (items : List ClassItem) :
    .scalar '/' ∉ classPattern inclusive items := by
  have free : .scalar '/' ∉ items.flatMap ClassItem.text := by
    intro member
    obtain ⟨item, _, here⟩ := List.mem_flatMap.1 member
    exact item.slash_not_mem_text here
  cases inclusive <;> simp [classPattern, free]

theorem scans_classPattern (ne : items ≠ []) (inclusive : Bool) :
    Scans (classPattern inclusive items)
      (Token.ofClass inclusive (CodeSet.ofRanges (items.flatMap ClassItem.ranges))) := by
  have read (rest : List Symbol) : Token.readToken (.scalar '[')
      ((if inclusive then [] else [.scalar '!']) ++ (items.flatMap ClassItem.text ++ [.scalar ']']) ++ rest) =
      .ok (Token.ofClass inclusive (CodeSet.ofRanges (items.flatMap ClassItem.ranges)), rest) := by
    have class_read := readClass_items ne inclusive rest
    simp [Token.readToken, class_read]
  have scanned := scans_cons (slash_not_mem_classPattern inclusive items) (fun rest _ => read rest) scans_nil
  rwa [List.append_nil, List.append_nil] at scanned

theorem listed_iff {c : Char} :
    Listed items c ↔ c ≠ '/' ∧ c.toNat ∈ CodeSet.ofRanges (items.flatMap ClassItem.ranges) := by
  have listed : (∃ item ∈ items, item.Lists c) ↔
      c.toNat ∈ CodeSet.ofRanges (items.flatMap ClassItem.ranges) := by
    rw [CodeSet.mem_ofRanges]
    simp only [ClassItem.lists_iff, List.mem_flatMap]
    constructor
    · rintro ⟨item, here, r, member, inside⟩
      exact ⟨r, ⟨item, here, member⟩, inside⟩
    · rintro ⟨r, ⟨item, here, member⟩, inside⟩
      exact ⟨item, here, r, member, inside⟩
  rw [Listed, listed]

theorem accepts_classPattern (ne : items ≠ []) (inclusive : Bool) :
    ∃ g, Glob.compile (classPattern inclusive items) = .ok g ∧
      ∀ path : List Component, g.accepts path = true ↔
        ∃ upper c, path = upper ++ [String.utf8EncodeChar c] ∧
          c ≠ '/' ∧ (Listed items c ↔ inclusive = true) := by
  obtain ⟨item, here⟩ := List.exists_mem_of_ne_nil items ne
  obtain ⟨c, ordinary, lists⟩ := item.exists_lists
  have member := (listed_iff.1 ⟨ordinary, item, here, lists⟩).2
  obtain ⟨a, appends, oneOf⟩ := exists_oneOf_ofClass ordinary member inclusive
  have plain := slash_not_mem_classPattern inclusive items
  have other : a ≠ .boundary := oneOf.inside.1
  have varied : Program.Varied [.boundary, .atom a] := by
    have apart : ¬ Node.Alike .boundary (.atom a) :=
      not_alike_iff.2 (Builder.merge?_boundary (by simpa [Node.boundary] using other))
    exact List.isChain_cons_cons.2 ⟨apart, List.isChain_singleton _⟩
  have ends : ([.boundary, .atom a] : Program).getLast? ≠ some .boundary := by
    simpa [Node.boundary] using other
  have compiled := compile_of_scans plain (scans_classPattern ne inclusive)
    (writtenOf_of_appends varied appends) ends
  refine accepts_of_oneOf plain compiled (oneOf.congr fun c => ?_)
  apply and_congr_right
  intro ordinary
  rw [listed_iff, and_iff_right ordinary]

end Items

/-- A class matches the paths whose last component is one of the characters that it lists, and an
exclusive class those whose last component is any other.  That is no slash, for a slash is part of no
name. -/
theorem class_accepts_listed {items : List ClassItem} (ne : items ≠ []) :
    (∃ g, Glob.compile (classPattern true items) = .ok g ∧
      ∀ path : List Component, g.accepts path = true ↔
        ∃ upper c, path = upper ++ [String.utf8EncodeChar c] ∧ Listed items c) ∧
    ∃ g, Glob.compile (classPattern false items) = .ok g ∧
      ∀ path : List Component, g.accepts path = true ↔
        ∃ upper c, path = upper ++ [String.utf8EncodeChar c] ∧ c ≠ '/' ∧ ¬ Listed items c := by
  obtain ⟨g, made, accepts⟩ := accepts_classPattern ne true
  obtain ⟨g', made', accepts'⟩ := accepts_classPattern ne false
  refine ⟨⟨g, made, fun path => (accepts path).trans ?_⟩, g', made', fun path => (accepts' path).trans ?_⟩
  · simp only [iff_true]
    constructor
    · rintro ⟨upper, c, same, _, listed⟩
      exact ⟨upper, c, same, listed⟩
    · rintro ⟨upper, c, same, listed⟩
      exact ⟨upper, c, same, listed.1, listed⟩
  · simp only [Bool.false_eq_true, iff_false]

/-- The characters around the slash, a bracket and a letter of two bytes. -/
def aroundSlash : List ClassItem :=
  [.range '+' '0' (by decide) (by decide) (by decide), .one ']' (by decide), .one 'é' (by decide)]

theorem class_accepts_listed_aroundSlash :
    aroundSlash ≠ [] ∧
      (∃ g, Glob.compile (Symbol.ofText "[\\+-\\0\\]\\é]".toList) = .ok g ∧
        g.accepts [[97], [45]] = true ∧ g.accepts [[195, 169]] = true) ∧
      ∃ g, Glob.compile (Symbol.ofText "[!\\+-\\0\\]\\é]".toList) = .ok g ∧
        g.accepts [[97], [45]] = false ∧ g.accepts [[97]] = true := by
  have ne : aroundSlash ≠ [] := by
    simp [aroundSlash]
  obtain ⟨⟨g, made, accepts⟩, g', made', accepts'⟩ := class_accepts_listed ne
  have hyphen : [[97], [45]] = [[97]] ++ [String.utf8EncodeChar '-'] := by
    decide
  have letter : [[97]] = [] ++ [String.utf8EncodeChar 'a'] := by
    decide
  have accented : [[195, 169]] = [] ++ [String.utf8EncodeChar 'é'] := by
    decide
  refine ⟨ne, ⟨g, made, ?_, ?_⟩, g', made', ?_, ?_⟩
  · exact (accepts _).2 ⟨_, '-', hyphen, by decide⟩
  · exact (accepts _).2 ⟨_, 'é', accented, by decide⟩
  · rw [← Bool.not_eq_true, accepts']
    rintro ⟨upper, c, same, _, other⟩
    rw [hyphen] at same
    have char := List.singleton_inj.1 (List.append_inj' same rfl).2
    rw [← Utf8.encode_singleton, ← Utf8.encode_singleton] at char
    cases Utf8.encode_injective char
    exact other (by decide)
  · exact (accepts' _).2 ⟨_, 'a', letter, by decide⟩

end EditorSettings
