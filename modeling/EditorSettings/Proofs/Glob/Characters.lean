import Mathlib.Data.List.Basic
import Mathlib.Data.List.TakeWhile
import EditorSettings.Proofs.Glob.Place
import EditorSettings.Proofs.Text.Decimal
import EditorSettings.Proofs.Text.Utf8

/-! # Cursors on characters

`TextCursor` is a cursor on a path whose components are texts.  It drops whole characters, compares
symbols with characters and reads digits as characters, so nothing about it mentions UTF-8.

`TextCursor.encode` is the same place in the bytes of these texts, and `move_encode` and `dropChar_encode`
say that a cursor on bytes moves as the one on characters does.  What is behind it is that the last
character can be told from the last bytes (`lastCharWidth_encodeChar`), that a text cannot end in half a
character of another (`bytesLeft_prefix`), and that digits and the minus sign are single bytes which no
other character has a part in (`takeWhile_bytesLeft`).
-/

namespace EditorSettings

/-! ## Whole characters in bytes -/

namespace Cursor

theorem lastCharWidth_cons {b : UInt8} (follows : Utf8.isContinuation b = true) (budget : Nat)
    {more : List UInt8} (ne : more ≠ []) :
    lastCharWidth (budget + 1) (b :: more) = 1 + lastCharWidth budget more := by
  cases more with
  | nil => exact absurd rfl ne
  | cons => simp [lastCharWidth, follows]

theorem lastCharWidth_first {b : UInt8} (starts : Utf8.isContinuation b = false) (budget : Nat)
    (more : List UInt8) : lastCharWidth budget (b :: more) = 1 := by
  cases more with
  | nil => cases budget <;> rfl
  | cons => cases budget <;> simp [lastCharWidth, starts]

theorem lastCharWidth_append {others : List UInt8} {first : UInt8} {budget : Nat}
    (starts : Utf8.isContinuation first = false) (short : others.length ≤ budget)
    (follow : ∀ b ∈ others, Utf8.isContinuation b = true) (more : List UInt8) :
    lastCharWidth budget (others ++ first :: more) = others.length + 1 := by
  induction others generalizing budget with
  | nil => exact lastCharWidth_first starts budget more
  | cons b others ih =>
    obtain ⟨here, later⟩ := List.forall_mem_cons.1 follow
    cases budget with
    | zero => cases short
    | succ budget =>
      rw [List.cons_append, lastCharWidth_cons here budget (by simp),
        ih (Nat.le_of_succ_le_succ short) later, List.length_cons, Nat.add_comm]

theorem lastCharWidth_encodeChar (c : Char) (left : List UInt8) :
    lastCharWidth 3 ((String.utf8EncodeChar c).reverse ++ left) =
      (String.utf8EncodeChar c).length := by
  obtain ⟨first, others, shape, starts, short, follow⟩ := (Utf8.sequence_encodeChar c).shape
  have found : lastCharWidth 3 (others.reverse ++ first :: left) = others.reverse.length + 1 :=
    lastCharWidth_append starts (by simpa using short)
      (fun b member => follow b (List.mem_reverse.1 member)) left
  simpa [shape] using found

theorem exists_lastChar (c : Char) (left : List UInt8) :
    ∃ b more, (String.utf8EncodeChar c).reverse ++ left = b :: more ∧
      (b :: more).drop (lastCharWidth 3 (b :: more)) = left ∧
      (b :: more).take (lastCharWidth 3 (b :: more)) = (String.utf8EncodeChar c).reverse := by
  have width := lastCharWidth_encodeChar c left
  have size : (String.utf8EncodeChar c).reverse.length = (String.utf8EncodeChar c).length :=
    List.length_reverse
  cases bytes : (String.utf8EncodeChar c).reverse ++ left with
  | nil => simp [String.utf8EncodeChar_ne_nil] at bytes
  | cons b more =>
    refine ⟨b, more, rfl, ?_, ?_⟩
    · rw [← bytes, width, List.drop_left' size]
    · rw [← bytes, width, List.take_left' size]

theorem dropChar_encodeChar (c : Char) (left : List UInt8) (above : List (Option Component))
    (crossing : Bool) :
    (within ((String.utf8EncodeChar c).reverse ++ left) above).dropChar crossing =
      some (.within left above) := by
  obtain ⟨b, more, bytes, rest, _⟩ := exists_lastChar c left
  rw [bytes, dropChar, rest]

theorem popChar_encodeChar (c : Char) (left : List UInt8) (above : List (Option Component)) :
    (within ((String.utf8EncodeChar c).reverse ++ left) above).popChar =
      some (.within left above, c) := by
  obtain ⟨b, more, bytes, rest, last⟩ := exists_lastChar c left
  have read := Utf8.decodeChar_encodeChar c []
  rw [List.append_nil] at read
  simp only [bytes, popChar, rest, last, List.reverse_reverse, read]

/-- Only a whole character is popped off a component. -/
theorem popChar_cons_iff {b : UInt8} {more : List UInt8} {above : List (Option Component)}
    {d : Cursor} {c : Char} :
    (within (b :: more) above).popChar = some (d, c) ↔
      ∃ rest, b :: more = (String.utf8EncodeChar c).reverse ++ rest ∧ d = .within rest above := by
  constructor
  · intro popped
    simp only [popChar] at popped
    split at popped
    next read =>
      cases popped
      have bytes := Utf8.eq_encodeChar_of_decodeChar read
      rw [List.append_nil, List.reverse_eq_iff] at bytes
      exact ⟨_, by rw [← bytes, List.take_append_drop], rfl⟩
    · cases popped
  · rintro ⟨rest, bytes, rfl⟩
    rw [bytes, popChar_encodeChar]

end Cursor

/-! ## Characters -/

/-- A place in a path whose components are texts, seen from its end. -/
inductive TextCursor
  | root
  /-- Inside a component, of which the characters `left` are left, the last one first.  The
  components above it come nearest first. -/
  | within (left : Text) (above : List Text)

namespace TextCursor

def position : TextCursor → Int × Nat
  | .root => (-1, 0)
  | .within left above => (above.length, left.length)

/-! ## Moves -/

def enter : List Text → TextCursor
  | [] => .root
  | name :: above => .within name.reverse above

def start (path : List Text) : TextCursor := enter path.reverse

def crossBoundary : TextCursor → Option TextCursor
  | .within [] above => some (enter above)
  | _ => none

def dropChar (crossing : Bool) : TextCursor → Option TextCursor
  | .within (_ :: left) above => some (.within left above)
  | c => if crossing then c.crossBoundary else none

def popChar : TextCursor → Option (TextCursor × Char)
  | .within (c :: left) above => some (.within left above, c)
  | c => c.crossBoundary.map (·, '/')

def dropSuffix (text : List Symbol) : TextCursor → Option TextCursor
  | .root => if text.isEmpty then some .root else none
  | .within left above =>
    if text.reverse.isPrefixOf (left.map .scalar) then some (.within (left.drop text.length) above)
    else none

def reachRoot : TextCursor → Option TextCursor
  | .within [] [] => some .root
  | _ => none

/-- What is left after dropping the number in the last `length` of the `run` digits at the end, if that
is a number between the bounds. -/
def dropDigits (low high : Int) (left : Text) (run length : Nat) : Option Text :=
  let digits := left.take length
  let value : Int := Decimal.value digits.reverse
  if 1 < length ∧ digits.getLast? = some '0' then none
  else if length = run ∧ left[run]? = some '-' ∧ low ≤ -value ∧ -value ≤ high then
    some (left.drop (run + 1))
  else if low ≤ value ∧ value ≤ high then some (left.drop length)
  else none

def dropLongest (low high : Int) (left : Text) (run : Nat) : Nat → Option Text
  | 0 => none
  | length + 1 =>
    match dropDigits low high left run (length + 1) with
    | some rest => some rest
    | none => dropLongest low high left run length

def dropNumber (low high : Int) : TextCursor → Except TooManyDigits (Option TextCursor)
  | .root => .ok none
  | .within left above =>
    let run := (left.takeWhile Char.isDigit).length
    if run = 0 then .ok none
    else
      match Decimal.width (max low.natAbs high.natAbs) with
      | .error e => .error e
      | .ok width => .ok ((dropLongest low high left run (min run width)).map (.within · above))

def move (c : TextCursor) : Atom → Except TooManyDigits (Option TextCursor)
  | .boundary => .ok c.crossBoundary
  | .anyChar => .ok (c.dropChar false)
  | .literal text => .ok (c.dropSuffix text)
  | .charClass members inclusive =>
    .ok <|
      match c.popChar with
      | none => none
      | some (rest, char) =>
        if char = '/' ∨ members.contains char.toNat ≠ inclusive then none else some rest
  | .number low high => c.dropNumber low high
  | .root => .ok c.reachRoot

/-! ## The place in the bytes -/

/-- The bytes of the characters left in a component, the last one first. -/
def bytesLeft (left : Text) : List UInt8 := (Utf8.encode left.reverse).reverse

/-- The same place in the bytes of the texts. -/
def encode : TextCursor → Cursor
  | .root => .root
  | .within left above => .within (bytesLeft left) (above.map fun name => some (Utf8.encode name))

@[simp] theorem bytesLeft_nil : bytesLeft [] = [] := rfl

theorem bytesLeft_append (u v : Text) : bytesLeft (u ++ v) = bytesLeft u ++ bytesLeft v := by
  simp [bytesLeft]

theorem bytesLeft_cons (c : Char) (left : Text) :
    bytesLeft (c :: left) = (String.utf8EncodeChar c).reverse ++ bytesLeft left := by
  simp [bytesLeft]

theorem bytesLeft_prefix {u v : Text} : bytesLeft u <+: bytesLeft v ↔ u <+: v := by
  rw [bytesLeft, bytesLeft, List.reverse_prefix, Utf8.encode_suffix_encode, List.reverse_suffix]

theorem bytesLeft_suffix {u v : Text} : bytesLeft u <:+ bytesLeft v ↔ u <:+ v := by
  rw [bytesLeft, bytesLeft, List.reverse_suffix, Utf8.encode_prefix_encode, List.reverse_prefix]

theorem bytesLeft_injective {u v : Text} (h : bytesLeft u = bytesLeft v) : u = v :=
  List.reverse_injective (Utf8.encode_injective (List.reverse_injective h))

theorem encode_injective {c d : TextCursor} (h : c.encode = d.encode) : c = d := by
  cases c with
  | root =>
    cases d with
    | root => rfl
    | within => cases h
  | within left above =>
    cases d with
    | root => cases h
    | within left' above' =>
      obtain ⟨sameLeft, sameAbove⟩ := Cursor.within.inj h
      have names := List.map_injective_iff.2 (fun _ _ same =>
        Utf8.encode_injective (Option.some.inj same)) sameAbove
      rw [bytesLeft_injective sameLeft, names]

/-! ## The moves in the bytes -/

theorem enter_encode (above : List Text) :
    Cursor.enter (above.map fun name => some (Utf8.encode name)) = some (enter above).encode := by
  cases above with
  | nil => rfl
  | cons name above => simp [Cursor.enter, enter, encode, bytesLeft]

theorem start_encode (reading : Reading) (path : List Text) :
    Cursor.start reading (path.map Utf8.encode) = some (start path).encode := by
  have readable (name : Text) : reading.read (Utf8.encode name) = some (Utf8.encode name) := by
    cases reading with
    | raw => rfl
    | utf8 => exact if_pos (Utf8.isWellFormed_iff.2 ⟨name, rfl⟩)
  have names : (path.map Utf8.encode).map reading.read =
      path.map fun name => some (Utf8.encode name) := by
    simp [readable]
  rw [Cursor.start, names, ← List.map_reverse, enter_encode]
  rfl

theorem encode_cons (c : Char) (left : Text) (above : List Text) :
    (within (c :: left) above).encode = .within ((String.utf8EncodeChar c).reverse ++ bytesLeft left)
      (above.map fun name => some (Utf8.encode name)) := by
  rw [encode, bytesLeft_cons]

theorem crossBoundary_encode (c : TextCursor) :
    c.encode.crossBoundary = c.crossBoundary.map encode := by
  match c with
  | .root => rfl
  | .within [] above => exact enter_encode above
  | .within (c :: left) above =>
    obtain ⟨b, more, bytes, _⟩ := Cursor.exists_lastChar c (bytesLeft left)
    rw [encode_cons, bytes]
    rfl

theorem dropChar_encode (crossing : Bool) (c : TextCursor) :
    c.encode.dropChar crossing = (c.dropChar crossing).map encode := by
  have crossed := crossBoundary_encode c
  match c with
  | .root | .within [] above => cases crossing with
    | true => exact crossed
    | false => rfl
  | .within (c :: left) above =>
    rw [encode_cons, Cursor.dropChar_encodeChar]
    rfl

theorem popChar_encode (c : TextCursor) :
    c.encode.popChar = c.popChar.map fun popped => (popped.1.encode, popped.2) := by
  have crossed := crossBoundary_encode c
  match c with
  | .root => rfl
  | .within [] above =>
    calc (within [] above).encode.crossBoundary.map (·, '/')
        = ((within [] above).crossBoundary.map encode).map (·, '/') := by rw [crossed]
      _ = ((within [] above).crossBoundary.map (·, '/')).map fun popped =>
            (popped.1.encode, popped.2) := by
          rw [Option.map_map, Option.map_map]
          rfl
  | .within (c :: left) above =>
    rw [encode_cons, Cursor.popChar_encodeChar]
    rfl

theorem reachRoot_encode (c : TextCursor) : c.encode.reachRoot = c.reachRoot.map encode := by
  match c with
  | .root | .within [] [] => rfl
  | .within [] (_ :: _) => rfl
  | .within (c :: left) above =>
    obtain ⟨b, more, bytes, _⟩ := Cursor.exists_lastChar c (bytesLeft left)
    rw [encode_cons, bytes]
    rfl

theorem scalar_prefix {u left : Text} :
    (Symbol.ofText u).reverse <+: left.map .scalar ↔ u.reverse <+: left := by
  rw [Symbol.ofText, ← List.map_reverse]
  exact List.prefix_map_iff_of_injective fun _ _ same => Symbol.scalar.inj same

theorem dropSuffix_encode (text : Text) (c : TextCursor) :
    c.encode.dropSuffix (Symbol.ofText text) = (c.dropSuffix (Symbol.ofText text)).map encode := by
  rw [Cursor.dropSuffix, Symbol.encode?_ofText]
  simp only [Cursor.dropBytes]
  by_cases empty : text = []
  · subst empty
    cases c with
    | root => rfl
    | within left above => simp [dropSuffix, Symbol.ofText]
  have some : ¬ (Utf8.encode text).isEmpty = true := by
    rw [List.isEmpty_iff, Utf8.encode_eq_nil]
    exact empty
  rw [if_neg some]
  cases c with
  | root =>
    simp [dropSuffix, encode, Symbol.ofText, empty]
  | within left above =>
    have bytes : (Utf8.encode text).reverse = bytesLeft text.reverse := by
      rw [bytesLeft, List.reverse_reverse]
    simp only [encode, dropSuffix, List.isPrefixOf_iff_prefix, bytes, bytesLeft_prefix, scalar_prefix]
    split
    next here =>
      obtain ⟨rest, rfl⟩ := here
      have width : (bytesLeft text.reverse).length = (Utf8.encode text).length := by
        rw [← bytes, List.length_reverse]
      have length : text.reverse.length = (Symbol.ofText text).length := by
        simp [Symbol.ofText]
      rw [bytesLeft_append, List.drop_left' width, List.drop_left' length]
      rfl
    · rfl

/-! ## Numbers in the bytes -/

def byte (c : Char) : UInt8 := UInt8.ofNat c.toNat

theorem toNat_byte {c : Char} (ascii : c.toNat < 0x80) : (byte c).toNat = c.toNat :=
  UInt8.toNat_ofNat_of_lt' (Nat.lt_trans ascii (by decide))

theorem byte_inj {c d : Char} (hc : c.toNat < 0x80) (hd : d.toNat < 0x80) :
    byte c = byte d ↔ c = d := by
  rw [← UInt8.toNat_inj, toNat_byte hc, toNat_byte hd, Char.toNat_inj]

theorem isDigit_byte_iff {b : UInt8} : Cursor.isDigit b ↔ 0x30 ≤ b.toNat ∧ b.toNat ≤ 0x39 := by
  simp only [Cursor.isDigit, Bool.and_eq_true, decide_eq_true_eq]
  exact Iff.rfl

theorem isDigit_byte {c : Char} (ascii : c.toNat < 0x80) : Cursor.isDigit (byte c) = c.isDigit := by
  rw [Bool.eq_iff_iff, isDigit_byte_iff, Decimal.isDigit_iff, toNat_byte ascii]

theorem bytesLeft_cons_ascii {c : Char} (ascii : c.toNat < 0x80) (left : Text) :
    bytesLeft (c :: left) = byte c :: bytesLeft left := by
  rw [bytesLeft_cons, (Utf8.sequence_encodeChar c).eq_singleton ascii]
  rfl

/-- A character outside ASCII ends in a byte outside ASCII. -/
theorem bytesLeft_cons_wide {c : Char} (wide : 0x80 ≤ c.toNat) (left : Text) :
    ∃ b more, bytesLeft (c :: left) = b :: more ∧ 0x80 ≤ b.toNat := by
  have high := (Utf8.sequence_encodeChar c).le_of_mem wide
  rw [bytesLeft_cons]
  cases bytes : (String.utf8EncodeChar c).reverse with
  | nil => simp [String.utf8EncodeChar_ne_nil] at bytes
  | cons b more =>
    refine ⟨b, more ++ bytesLeft left, rfl, high b (List.mem_reverse.1 ?_)⟩
    rw [bytes]
    exact List.mem_cons_self

theorem takeWhile_bytesLeft (left : Text) :
    (bytesLeft left).takeWhile Cursor.isDigit = (left.takeWhile Char.isDigit).map byte := by
  induction left with
  | nil => rfl
  | cons c left ih =>
    by_cases ascii : c.toNat < 0x80
    · rw [bytesLeft_cons_ascii ascii, List.takeWhile_cons, List.takeWhile_cons, isDigit_byte ascii, ih]
      split <;> rfl
    · obtain ⟨b, more, bytes, high⟩ := bytesLeft_cons_wide (Nat.le_of_not_lt ascii) left
      have other : ¬ Cursor.isDigit b := by
        rw [isDigit_byte_iff]
        omega
      have other' : ¬ c.isDigit := fun digit => ascii (Decimal.ascii_of_isDigit digit)
      simp [bytes, other, other']

theorem bytesLeft_digits {digits : Text} (all : ∀ c ∈ digits, c.isDigit) (rest : Text) :
    bytesLeft (digits ++ rest) = digits.map byte ++ bytesLeft rest := by
  induction digits with
  | nil => rfl
  | cons c digits ih =>
    obtain ⟨here, later⟩ := List.forall_mem_cons.1 all
    rw [List.cons_append, bytesLeft_cons_ascii (Decimal.ascii_of_isDigit here), ih later]
    rfl

theorem digitsValue_bytes {digits : Text} (all : ∀ c ∈ digits, c.isDigit) :
    Cursor.digitsValue (digits.map byte) = Decimal.value digits.reverse := by
  induction digits with
  | nil => rfl
  | cons c digits ih =>
    obtain ⟨here, later⟩ := List.forall_mem_cons.1 all
    have last : Decimal.value (digits.reverse ++ [c]) =
        10 * Decimal.value digits.reverse + (c.toNat - 0x30) := Nat.ofDigitChars_append 0
    rw [List.map_cons, Cursor.digitsValue, ih later, toNat_byte (Decimal.ascii_of_isDigit here),
      List.reverse_cons, last, Nat.add_comm]

theorem exists_digits {left : Text} {length : Nat}
    (short : length ≤ (left.takeWhile Char.isDigit).length) :
    ∃ digits rest, left = digits ++ rest ∧ digits.length = length ∧ ∀ c ∈ digits, c.isDigit := by
  have whole : left.takeWhile Char.isDigit ++ left.dropWhile Char.isDigit = left :=
    List.takeWhile_append_dropWhile
  have first : left.take length = (left.takeWhile Char.isDigit).take length := by
    rw [← List.take_append_of_le_length short, whole]
  refine ⟨left.take length, left.drop length, (List.take_append_drop length left).symm, ?_,
    fun c member => ?_⟩
  · rw [first, List.length_take, Nat.min_eq_left short]
  · rw [first] at member
    exact List.mem_takeWhile_imp (List.mem_of_mem_take member)

theorem head?_bytesLeft {c : Char} (ascii : c.toNat < 0x80) (left : Text) :
    (bytesLeft left).head? = some (byte c) ↔ left.head? = some c := by
  cases left with
  | nil => simp
  | cons d left =>
    by_cases other : d.toNat < 0x80
    · rw [bytesLeft_cons_ascii other, List.head?_cons, List.head?_cons, Option.some_inj,
        Option.some_inj, byte_inj other ascii]
    · obtain ⟨b, more, bytes, high⟩ := bytesLeft_cons_wide (Nat.le_of_not_lt other) left
      have ne : b ≠ byte c := fun same => by
        rw [same, toNat_byte ascii] at high
        omega
      have ne' : d ≠ c := fun same => other (same ▸ ascii)
      simp [bytes, ne, ne']

theorem dropDigits_bytes (low high : Int) {left : Text} {run length : Nat}
    (short : length ≤ (left.takeWhile Char.isDigit).length) :
    Cursor.dropDigits low high (bytesLeft left) run length =
      (dropDigits low high left run length).map bytesLeft := by
  obtain ⟨digits, rest, rfl, rfl, all⟩ := exists_digits short
  have bytes := bytesLeft_digits all rest
  have size : (digits.map byte).length = digits.length := List.length_map _
  have zero : (digits.map byte).getLast? = some 0x30 ↔ digits.getLast? = some '0' := by
    cases last : digits.getLast? with
    | none => simp [List.getLast?_map, last]
    | some c =>
      have digit := all c (List.mem_of_mem_getLast? last)
      rw [List.getLast?_map, last, Option.map_some, Option.some_inj, Option.some_inj]
      exact byte_inj (d := '0') (Decimal.ascii_of_isDigit digit) (by decide)
  have minus {signed : Prop} :
      (digits.length = run ∧ (digits.map byte ++ bytesLeft rest)[run]? = some 0x2D ∧ signed) ↔
        digits.length = run ∧ (digits ++ rest)[run]? = some '-' ∧ signed := by
    refine and_congr_right fun full => and_congr_left fun _ => ?_
    subst full
    rw [List.getElem?_append_right (Nat.le_of_eq size), List.getElem?_append_right (Nat.le_refl _),
      size, Nat.sub_self, ← List.head?_eq_getElem?, ← List.head?_eq_getElem?]
    exact head?_bytesLeft (c := '-') (by decide) rest
  simp only [Cursor.dropDigits, dropDigits, bytes, List.take_left' size, List.take_left' rfl, zero,
    minus, digitsValue_bytes all]
  split
  · rfl
  split
  next sign =>
    obtain ⟨rfl, here, _⟩ := sign
    rw [List.getElem?_append_right (Nat.le_refl _), Nat.sub_self, ← List.head?_eq_getElem?] at here
    obtain ⟨more, rfl⟩ := List.head?_eq_some_iff.1 here
    have minus : bytesLeft ('-' :: more) = byte '-' :: bytesLeft more :=
      bytesLeft_cons_ascii (by decide) more
    rw [minus, ← List.drop_drop, ← List.drop_drop, List.drop_left' size, List.drop_left' rfl]
    rfl
  split
  · rw [List.drop_left' size, List.drop_left' rfl]
    rfl
  · rfl

theorem dropLongest_bytes (low high : Int) {left : Text} {run length : Nat}
    (short : length ≤ (left.takeWhile Char.isDigit).length) :
    Cursor.dropLongest low high (bytesLeft left) run length =
      (dropLongest low high left run length).map bytesLeft := by
  induction length with
  | zero => rfl
  | succ length ih =>
    rw [Cursor.dropLongest, dropLongest, dropDigits_bytes low high short, ih (Nat.le_of_succ_le short)]
    cases dropDigits low high left run (length + 1) with
    | none => rfl
    | some rest => rfl

theorem dropNumber_encode (low high : Int) (c : TextCursor) :
    c.encode.dropNumber low high = (c.dropNumber low high).map (Option.map encode) := by
  cases c with
  | root => rfl
  | within left above =>
    have run : ((bytesLeft left).takeWhile Cursor.isDigit).length =
        (left.takeWhile Char.isDigit).length := by
      rw [takeWhile_bytesLeft, List.length_map]
    simp only [encode, Cursor.dropNumber, dropNumber, run]
    split
    · rfl
    cases Decimal.width (max low.natAbs high.natAbs) with
    | error e => rfl
    | ok width =>
      simp only [dropLongest_bytes low high (Nat.min_le_left _ width), Option.map_map, Except.map]
      rfl

end TextCursor

/-! ## Atoms -/

/-- An atom that says nothing about single bytes: a literal of it is a text. -/
def Atom.Textual : Atom → Prop
  | .literal text => ∃ t, text = Symbol.ofText t
  | _ => True

namespace TextCursor

/-- A cursor on bytes moves as the one on characters does. -/
theorem move_encode {a : Atom} (textual : a.Textual) (c : TextCursor) :
    c.encode.move a = (c.move a).map (Option.map encode) := by
  cases a with
  | boundary => exact congrArg Except.ok (crossBoundary_encode c)
  | anyChar => exact congrArg Except.ok (dropChar_encode false c)
  | literal text =>
    obtain ⟨t, rfl⟩ := textual
    exact congrArg Except.ok (dropSuffix_encode t c)
  | charClass members inclusive =>
    simp only [Cursor.move, move, popChar_encode]
    cases c.popChar with
    | none => rfl
    | some popped =>
      simp only [Option.map_some, Except.map]
      split <;> rfl
  | number low high => exact dropNumber_encode low high c
  | root => exact congrArg Except.ok (reachRoot_encode c)

/-! ## Positions -/

/-- On one path, the characters left tell the same places apart as the bytes left. -/
theorem position_iff {path : List (Option Component)} {c d : TextCursor} (hc : c.encode.On path)
    (hd : d.encode.On path) : c.encode.position = d.encode.position ↔ c.position = d.position := by
  constructor
  · intro same
    rw [encode_injective (eq_of_position hc hd same)]
  · intro same
    suffices c = d by rw [this]
    cases c with
    | root =>
      cases d with
      | root => rfl
      | within =>
        have := (Prod.mk.inj same).1
        omega
    | within left above =>
      cases d with
      | root =>
        have := (Prod.mk.inj same).1
        omega
      | within left' above' =>
        obtain ⟨name, here, kept⟩ := hc
        obtain ⟨name', here', kept'⟩ := hd
        obtain ⟨sameIndex, sameLength⟩ := Prod.mk.inj same
        rw [Int.natCast_inj] at sameIndex
        obtain ⟨sameName, sameAbove⟩ :=
          List.cons.inj (eq_of_suffix_of_length here here' (by simp [sameIndex]))
        cases sameName
        have names := List.map_injective_iff.2 (fun _ _ equal =>
          Utf8.encode_injective (Option.some.inj equal)) sameAbove
        -- of two texts that the same name starts with, one starts with the other
        have parts : left = left' := by
          obtain part | part := List.suffix_or_suffix_of_suffix kept kept'
          · exact (bytesLeft_suffix.1 part).eq_of_length sameLength
          · exact ((bytesLeft_suffix.1 part).eq_of_length sameLength.symm).symm
        rw [names, parts]

end TextCursor

end EditorSettings
