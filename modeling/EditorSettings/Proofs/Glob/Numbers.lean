import EditorSettings.Proofs.Glob.Characters
import EditorSettings.Proofs.Glob.Exploration
import EditorSettings.Proofs.Glob.Rereading

/-! # Numbers at the end of a component

A numeral is plain if it is written as `-?(0|[1-9][0-9]*)`, that is, if its digits are those of its value
(`Token.Numeral.Plain.write_value`).  So one whose value lies between two bounds has no more digits than
the wider bound, and dropping a number tries all of them that end the component, from the longest on.

`Cursor.dropDigits_sound` and `Cursor.exists_dropDigits` are about the numerals of one number of digits,
`dropLongest` and `dropNumber` have the same pair of lemmas, and `drops_longest_number` puts them
together.
-/

namespace EditorSettings

/-! ## Plain numerals -/

namespace Token.Numeral

/-- A numeral of digits of which a zero is the first only if it is the only one. -/
structure Plain (n : Numeral) : Prop extends n.Legible where
  zero : n.digits.head? = some '0' → n.digits = ['0']

/-- A plain numeral between two bounds. -/
structure Between (low high : Int) (n : Numeral) : Prop extends n.Plain where
  low_le : low ≤ n.toInt
  le_high : n.toInt ≤ high

theorem Plain.write_value {n : Numeral} (plain : n.Plain) :
    Decimal.write (Decimal.value n.digits) = n.digits := by
  obtain ⟨first, others, shape⟩ := List.exists_cons_of_ne_nil plain.ne
  by_cases zero : first = '0'
  · rw [plain.zero (by rw [shape, zero, List.head?_cons])]
    rfl
  · have all := plain.digits
    rw [shape] at all ⊢
    exact Decimal.write_value zero all

theorem natAbs_toInt (n : Numeral) : n.toInt.natAbs = Decimal.value n.digits := by
  unfold toInt
  split <;> omega

/-- A numeral between two bounds has no more digits than the wider one. -/
theorem Between.length_le {low high : Int} {n : Numeral} (between : n.Between low high) :
    n.digits.length ≤ (Decimal.write (max low.natAbs high.natAbs)).length := by
  have near : n.toInt.natAbs ≤ max low.natAbs high.natAbs := by
    have := between.low_le
    have := between.le_high
    omega
  rw [natAbs_toInt] at near
  rw [← between.write_value]
  exact Decimal.length_write_le near

/-! ## Numerals at an end -/

/-- A numeral is at the end of the bytes `left`, the last one first, and has `rest` before it. -/
def Ends (n : Numeral) (left rest : List UInt8) : Prop := left = (Utf8.encode n.text).reverse ++ rest

theorem Legible.reverse_encode {n : Numeral} (legible : n.Legible) :
    (Utf8.encode n.text).reverse =
      n.digits.reverse.map TextCursor.byte ++ if n.negative then [TextCursor.byte '-'] else [] := by
  have all : ∀ c ∈ n.digits.reverse, c.isDigit := fun c member =>
    legible.digits c (List.mem_reverse.1 member)
  have bytes (sign : Text) : (Utf8.encode (sign ++ n.digits)).reverse =
      n.digits.reverse.map TextCursor.byte ++ TextCursor.bytesLeft sign.reverse := by
    have := TextCursor.bytesLeft_digits all sign.reverse
    rwa [TextCursor.bytesLeft, List.reverse_append, List.reverse_reverse, List.reverse_reverse] at this
  unfold Numeral.text
  split
  · exact bytes ['-']
  · exact bytes []

theorem Legible.ends_iff {n : Numeral} (legible : n.Legible) {left rest : List UInt8} :
    n.Ends left rest ↔ left = n.digits.reverse.map TextCursor.byte ++
      ((if n.negative then [TextCursor.byte '-'] else []) ++ rest) := by
  rw [Ends, legible.reverse_encode, List.append_assoc]

theorem length_text (n : Numeral) :
    n.digits.length ≤ n.text.length ∧ n.text.length ≤ n.digits.length + 1 := by
  unfold Numeral.text
  split <;> simp

theorem Legible.length_encode {n : Numeral} (legible : n.Legible) :
    (Utf8.encode n.text).length = n.text.length := by
  rw [← List.length_reverse, legible.reverse_encode]
  unfold Numeral.text
  split <;> simp

theorem Legible.length_eq {n : Numeral} (legible : n.Legible) {left rest : List UInt8}
    (ends : n.Ends left rest) : left.length = n.text.length + rest.length := by
  rw [ends, List.length_append, List.length_reverse, legible.length_encode]

theorem Legible.length_run {n : Numeral} (legible : n.Legible) {left rest : List UInt8}
    (ends : n.Ends left rest) : n.digits.length ≤ (left.takeWhile Cursor.isDigit).length ∧
      (n.negative = true → n.digits.length = (left.takeWhile Cursor.isDigit).length) := by
  have all : ∀ b ∈ n.digits.reverse.map TextCursor.byte, Cursor.isDigit b := by
    intro b member
    obtain ⟨c, inside, rfl⟩ := List.mem_map.1 member
    have digit := legible.digits c (List.mem_reverse.1 inside)
    rwa [TextCursor.isDigit_byte (Decimal.ascii_of_isDigit digit)]
  rw [legible.ends_iff.1 ends, List.takeWhile_append_of_pos all]
  constructor
  · simp
  · intro negative
    have other : Cursor.isDigit (TextCursor.byte '-') = false := rfl
    simp [negative, other]

end Token.Numeral

/-! ## Dropping numbers -/

namespace Cursor

section Dropping

variable {low high : Int} {left rest : List UInt8}

theorem exists_text {bytes : List UInt8} (all : ∀ b ∈ bytes, isDigit b) :
    ∃ digits : Text, bytes = digits.map TextCursor.byte ∧ ∀ c ∈ digits, c.isDigit := by
  induction bytes with
  | nil => exact ⟨[], rfl, List.forall_mem_nil _⟩
  | cons b bytes ih =>
    obtain ⟨here, later⟩ := List.forall_mem_cons.1 all
    obtain ⟨digits, rfl, digit⟩ := ih later
    have range := TextCursor.isDigit_byte_iff.1 here
    have code : (Char.ofNat b.toNat).toNat = b.toNat := Utf8.toNat_ofNat (.inl (by omega))
    refine ⟨Char.ofNat b.toNat :: digits, ?_, List.forall_mem_cons.2 ⟨?_, digit⟩⟩
    · rw [List.map_cons, TextCursor.byte, code, UInt8.ofNat_toNat]
    · rw [Decimal.isDigit_iff, code]
      exact range

theorem exists_ending {length : Nat} (short : length ≤ (left.takeWhile isDigit).length) :
    ∃ (digits : Text) (rest : List UInt8), left = digits.reverse.map TextCursor.byte ++ rest ∧
      digits.length = length ∧ ∀ c ∈ digits, c.isDigit := by
  obtain ⟨more, whole⟩ := List.takeWhile_prefix (l := left) isDigit
  have all : ∀ b ∈ (left.takeWhile isDigit).take length, isDigit b := fun b member =>
    List.mem_takeWhile_imp (List.mem_of_mem_take member)
  obtain ⟨digits, bytes, digit⟩ := exists_text all
  refine ⟨digits.reverse, left.drop length, ?_, ?_, fun c member => digit c (List.mem_reverse.1 member)⟩
  · have first : (left.takeWhile isDigit).take length = left.take length := by
      conv_rhs => rw [← whole, List.take_append_of_le_length short]
    rw [List.reverse_reverse, ← bytes, first, List.take_append_drop]
  · rw [List.length_reverse, ← List.length_map (f := TextCursor.byte), ← bytes, List.length_take,
      Nat.min_eq_left short]

theorem digitsValue_reverse {digits : Text} (all : ∀ c ∈ digits, c.isDigit) :
    digitsValue (digits.reverse.map TextCursor.byte) = Decimal.value digits := by
  have reversed := TextCursor.digitsValue_bytes fun c member => all c (List.mem_reverse.1 member)
  rwa [List.reverse_reverse] at reversed

theorem dropDigits_ending {digits : Text} (all : ∀ c ∈ digits, c.isDigit) (run : Nat) :
    dropDigits low high (digits.reverse.map TextCursor.byte ++ rest) run digits.length =
      if 1 < digits.length ∧ digits.head? = some '0' then none
      else if digits.length = run ∧ rest.head? = some (TextCursor.byte '-') ∧
          low ≤ -(Decimal.value digits : Int) ∧ -(Decimal.value digits : Int) ≤ high then
        some rest.tail
      else if low ≤ (Decimal.value digits : Int) ∧ (Decimal.value digits : Int) ≤ high then some rest
      else none := by
  have size : (digits.reverse.map TextCursor.byte).length = digits.length := by simp
  have value := digitsValue_reverse all
  have zero : (digits.reverse.map TextCursor.byte).getLast? = some 0x30 ↔ digits.head? = some '0' := by
    rw [List.getLast?_map, List.getLast?_reverse]
    cases first : digits.head? with
    | none => simp
    | some c =>
      have digit := all c (List.mem_of_mem_head? first)
      rw [Option.map_some, Option.some_inj, Option.some_inj]
      exact TextCursor.byte_inj (d := '0') (Decimal.ascii_of_isDigit digit) (by decide)
  simp only [dropDigits, List.take_left' size, List.drop_left' size, zero, value]
  split
  · rfl
  -- the byte after a whole run is the first of the others
  by_cases whole : digits.length = run
  · subst whole
    have after : (digits.reverse.map TextCursor.byte ++ rest)[digits.length]? = rest.head? := by
      rw [List.getElem?_append_right (Nat.le_of_eq size), size, Nat.sub_self, List.head?_eq_getElem?]
    have tail : (digits.reverse.map TextCursor.byte ++ rest).drop (digits.length + 1) = rest.tail := by
      rw [← List.drop_drop, List.drop_left' size, List.drop_one]
    rw [after, tail]
    rfl
  · simp only [whole, false_and, if_false]

/-- What is dropped is a numeral between the bounds. -/
theorem dropDigits_sound {length : Nat} (pos : 0 < length)
    (short : length ≤ (left.takeWhile isDigit).length)
    (h : dropDigits low high left (left.takeWhile isDigit).length length = some rest) :
    ∃ n : Token.Numeral, n.Between low high ∧ n.digits.length = length ∧ n.Ends left rest := by
  obtain ⟨digits, before, bytes, rfl, all⟩ := exists_ending short
  have legible (negative : Bool) : Token.Numeral.Legible ⟨negative, digits⟩ :=
    ⟨List.ne_nil_of_length_pos pos, all⟩
  generalize (left.takeWhile isDigit).length = run at h
  rw [bytes, dropDigits_ending all] at h
  split at h
  · cases h
  next plain =>
    have zero (first : digits.head? = some '0') : digits = ['0'] := by
      have single : digits.length = 1 := by
        by_contra several
        exact plain ⟨by omega, first⟩
      obtain ⟨c, rfl⟩ := List.length_eq_one_iff.1 single
      simpa using first
    split at h
    next signed =>
      cases h
      obtain ⟨_, minus, low_le, le_high⟩ := signed
      obtain ⟨more, rfl⟩ := List.head?_eq_some_iff.1 minus
      exact ⟨⟨true, digits⟩, ⟨⟨legible true, zero⟩, low_le, le_high⟩, rfl, (legible true).ends_iff.2 bytes⟩
    next =>
      split at h
      next between =>
        cases h
        exact ⟨⟨false, digits⟩, ⟨⟨legible false, zero⟩, between.1, between.2⟩, rfl,
          (legible false).ends_iff.2 bytes⟩
      · cases h

theorem exists_dropDigits {n : Token.Numeral} (between : n.Between low high) (ends : n.Ends left rest) :
    ∃ after, dropDigits low high left (left.takeWhile isDigit).length n.digits.length = some after ∧
      after.length ≤ rest.length := by
  obtain ⟨_, whole⟩ := between.length_run ends
  generalize (left.takeWhile isDigit).length = run at whole
  rw [between.ends_iff.1 ends, dropDigits_ending between.digits]
  have plain : ¬ (1 < n.digits.length ∧ n.digits.head? = some '0') := by
    rintro ⟨several, first⟩
    rw [between.zero first] at several
    exact Nat.lt_irrefl _ several
  have low_le := between.low_le
  have le_high := between.le_high
  rw [if_neg plain]
  unfold Token.Numeral.toInt at low_le le_high
  cases negative : n.negative with
  | true =>
    simp only [negative, if_true] at low_le le_high
    refine ⟨rest, if_pos ⟨whole negative, rfl, low_le, le_high⟩, Nat.le_refl _⟩
  | false =>
    simp only [negative, Bool.false_eq_true, if_false] at low_le le_high
    simp only [Bool.false_eq_true, if_false, List.nil_append]
    -- a sign before the digits may be dropped as well
    split
    · exact ⟨rest.tail, rfl, by simp⟩
    · exact ⟨rest, if_pos ⟨low_le, le_high⟩, Nat.le_refl _⟩

theorem dropLongest_sound {bound : Nat} (short : bound ≤ (left.takeWhile isDigit).length)
    (h : dropLongest low high left (left.takeWhile isDigit).length bound = some rest) :
    ∃ n : Token.Numeral, n.Between low high ∧ n.Ends left rest := by
  induction bound with
  | zero => cases h
  | succ bound ih =>
    unfold dropLongest at h
    split at h
    next dropped =>
      cases h
      obtain ⟨n, between, _, ends⟩ := dropDigits_sound (Nat.succ_pos bound) short dropped
      exact ⟨n, between, ends⟩
    · exact ih (Nat.le_of_succ_le short) h

theorem exists_dropLongest {bound : Nat} (short : bound ≤ (left.takeWhile isDigit).length)
    {n : Token.Numeral} (between : n.Between low high) (ends : n.Ends left rest)
    (fits : n.digits.length ≤ bound) :
    ∃ after, dropLongest low high left (left.takeWhile isDigit).length bound = some after ∧
      after.length ≤ rest.length := by
  induction bound with
  | zero => exact absurd (List.length_eq_zero_iff.1 (Nat.le_zero.1 fits)) between.ne
  | succ bound ih =>
    unfold dropLongest
    obtain here | fewer := Nat.eq_or_lt_of_le fits
    · obtain ⟨after, dropped, le⟩ := exists_dropDigits between ends
      rw [here] at dropped
      exact ⟨after, by rw [dropped], le⟩
    · split
      next after dropped =>
        -- a numeral of more digits leaves no more, whatever signs there are
        obtain ⟨m, between', digits, ends'⟩ := dropDigits_sound (Nat.succ_pos bound) short dropped
        have size := between.length_eq ends
        have size' := between'.length_eq ends'
        have sign := n.length_text
        have sign' := m.length_text
        exact ⟨after, rfl, by omega⟩
      · exact ih (Nat.le_of_succ_le short) (Nat.le_of_lt_succ fewer)

end Dropping

theorem dropNumber_sound {low high : Int} {c d : Cursor} (h : c.dropNumber low high = .ok (some d)) :
    ∃ (n : Token.Numeral) (left rest : List UInt8) (above : List (Option Component)),
      n.Between low high ∧ n.Ends left rest ∧ c = .within left above ∧ d = .within rest above := by
  unfold dropNumber at h
  split at h
  · cases h
  next left above =>
    simp only at h
    split at h
    · cases h
    · split at h
      · cases h
      next width _ =>
        obtain ⟨rest, dropped, same⟩ := Option.map_eq_some_iff.1 (Except.ok.inj h)
        obtain ⟨n, between, ends⟩ := dropLongest_sound (Nat.min_le_left _ width) dropped
        exact ⟨n, left, rest, above, between, ends, rfl, same.symm⟩

/-- If there is a numeral between the bounds, a number is dropped, and no shorter one. -/
theorem dropNumber_of_ends {low high : Int} (short : Short low) (short' : Short high) {n : Token.Numeral}
    (between : n.Between low high) {left rest : List UInt8} (ends : n.Ends left rest)
    (above : List (Option Component)) :
    ∃ after, (within left above).dropNumber low high = .ok (some (.within after above)) ∧
      after.length ≤ rest.length := by
  have run := (between.length_run ends).1
  have filled : (left.takeWhile isDigit).length ≠ 0 := by
    have := List.length_pos_iff.2 between.ne
    omega
  obtain ⟨after, dropped, le⟩ := exists_dropLongest (Nat.min_le_left _ _) between ends
    (Nat.le_min.2 ⟨run, between.length_le⟩)
  refine ⟨after, ?_, le⟩
  simp only [dropNumber, if_neg filled, width_of_short short short', dropped, Option.map_some]

def withPart (part : Component) : Cursor → Cursor
  | .root => .root
  | .within _ above => .within part.reverse above

theorem part_eq_iff {n : Token.Numeral} (legible : n.Legible) {c : Cursor} {rest : Component} :
    c.part = rest ++ Utf8.encode n.text ↔
      ∃ left above, c = .within left above ∧ n.Ends left rest.reverse := by
  cases c with
  | root =>
    have filled : Utf8.encode n.text ≠ [] := by
      have digits := List.length_pos_iff.2 legible.ne
      have text := n.length_text
      exact List.ne_nil_of_length_pos (by rw [legible.length_encode]; omega)
    simp [part, filled]
  | within left above =>
    have ends : n.Ends left rest.reverse ↔ left.reverse = rest ++ Utf8.encode n.text := by
      rw [Token.Numeral.Ends, ← List.reverse_append, List.reverse_eq_iff]
    simp [part, ends]

end Cursor

/-- Between bounds within the limit, in either order, what is dropped is the longest plain numeral at the
end of the component whose value lies between them, and nothing is only if there is none. -/
theorem drops_longest_number {low high : Int} (short : Short low) (short' : Short high) (c : Cursor) :
    ∃ result, c.dropNumber low high = .ok result ∧
      (result = none ↔ ¬ ∃ (n : Token.Numeral) (rest : Component), n.Between low high ∧
        c.part = rest ++ Utf8.encode n.text) ∧
      ∀ d, result = some d ↔ ∃ (n : Token.Numeral) (rest : Component), n.Between low high ∧
        c.part = rest ++ Utf8.encode n.text ∧ d = c.withPart rest ∧
        ∀ (m : Token.Numeral) (other : Component), m.Between low high →
          c.part = other ++ Utf8.encode m.text → m.text.length ≤ n.text.length := by
  obtain ⟨result, dropped⟩ := move_of_runnable (a := .number low high) ⟨short, short'⟩ c
  have never {n : Token.Numeral} {rest : Component} (between : n.Between low high)
      (ends : c.part = rest ++ Utf8.encode n.text) : result ≠ none := by
    obtain ⟨left, above, rfl, here⟩ := (Cursor.part_eq_iff between.toLegible).1 ends
    obtain ⟨after, found, _⟩ := Cursor.dropNumber_of_ends short short' between here above
    rw [Except.ok.inj (dropped.symm.trans found)]
    simp
  have longest {d : Cursor} (found : result = some d) : ∃ (n : Token.Numeral) (rest : Component),
      n.Between low high ∧ c.part = rest ++ Utf8.encode n.text ∧ d = c.withPart rest ∧
        ∀ (m : Token.Numeral) (other : Component), m.Between low high →
          c.part = other ++ Utf8.encode m.text → m.text.length ≤ n.text.length := by
    subst found
    obtain ⟨n, left, rest, above, between, ends, rfl, rfl⟩ := Cursor.dropNumber_sound dropped
    refine ⟨n, rest.reverse, between, ?_, by simp [Cursor.withPart], fun m other between' ends' => ?_⟩
    · exact (Cursor.part_eq_iff between.toLegible).2 ⟨left, above, rfl, by simpa using ends⟩
    · obtain ⟨_, _, same, ends'⟩ := (Cursor.part_eq_iff between'.toLegible).1 ends'
      cases same
      obtain ⟨after, found, le⟩ := Cursor.dropNumber_of_ends short short' between' ends' above
      cases dropped.symm.trans found
      have size := between.length_eq ends
      have size' := between'.length_eq ends'
      omega
  refine ⟨result, dropped, ⟨?_, ?_⟩, fun d => ⟨longest, ?_⟩⟩
  · rintro nothing ⟨n, rest, between, ends⟩
    exact never between ends nothing
  · intro absent
    cases result with
    | none => rfl
    | some d =>
      obtain ⟨n, rest, between, ends, _⟩ := longest rfl
      exact absurd ⟨n, rest, between, ends⟩ absent
  · rintro ⟨n, rest, between, ends, rfl, best⟩
    obtain ⟨d, found⟩ := Option.ne_none_iff_exists'.1 (never between ends)
    obtain ⟨m, other, between', ends', rfl, best'⟩ := longest found
    -- two numerals that are both the longest leave the same
    have size := Nat.le_antisymm (best m other between' ends') (best' n rest between ends)
    rw [← between.length_encode, ← between'.length_encode] at size
    rw [found, List.append_inj_left' (ends.symm.trans ends') size.symm]

/-- In `v-015` neither `-015` nor `015` is plain, and the sign is not next to `15`. -/
theorem drops_longest_number_leadingZero :
    Short 20 ∧ Short (-7) ∧
      (Cursor.within [53, 49, 48, 45, 118] []).dropNumber (-7) 20 = .ok (some (.within [48, 45, 118] [])) ∧
      ∃ n : Token.Numeral, n.Between (-7) 20 ∧ [118, 45, 48, 49, 53] = [118, 45, 48] ++ Utf8.encode n.text ∧
        ∀ (m : Token.Numeral) (other : Component), m.Between (-7) 20 →
          [118, 45, 48, 49, 53] = other ++ Utf8.encode m.text → m.text.length ≤ n.text.length := by
  have low : Short (-7) := by
    unfold Short
    decide
  have high : Short 20 := by
    unfold Short
    decide
  let c : Cursor := .within [53, 49, 48, 45, 118] []
  obtain ⟨result, dropped, _, longest⟩ := drops_longest_number low high c
  have found : c.dropNumber (-7) 20 = .ok (some (.within [48, 45, 118] [])) := rfl
  obtain ⟨n, rest, between, ends, left, best⟩ :=
    (longest _).1 (Except.ok.inj (dropped.symm.trans found))
  have same : rest = [118, 45, 48] := by
    simpa [Cursor.withPart, c] using (Cursor.within.inj left).1.symm
  subst same
  exact ⟨high, low, found, n, between, ends, best⟩

end EditorSettings
