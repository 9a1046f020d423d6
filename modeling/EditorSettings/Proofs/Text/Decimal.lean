import EditorSettings.Text.Decimal

/-! # Digits and their value

Digits without a leading zero are those that their value is written in (`write_value`), and no digits are
fewer than those (`length_write_value_le`).
-/

namespace EditorSettings.Decimal

/-! ## Characters -/

theorem isDigit_iff {c : Char} : c.isDigit ↔ 0x30 ≤ c.toNat ∧ c.toNat ≤ 0x39 := by
  simp only [Char.isDigit, Bool.and_eq_true, decide_eq_true_eq]
  exact Iff.rfl

theorem ascii_of_isDigit {c : Char} (digit : c.isDigit) : c.toNat < 0x80 := by
  have := isDigit_iff.1 digit
  omega

theorem digitChar_toNat_sub {c : Char} (digit : c.isDigit) : Nat.digitChar (c.toNat - '0'.toNat) = c := by
  have range := isDigit_iff.1 digit
  have zero : '0'.toNat = 0x30 := rfl
  apply Char.toNat_inj.1
  rw [Nat.toNat_digitChar_of_lt_ten (by omega)]
  omega

/-! ## Texts -/

/-- Digits after those of a number that is not zero are digits of a number. -/
theorem write_append {n : Nat} (pos : 0 < n) {digits : Text} (all : ∀ c ∈ digits, c.isDigit) :
    write n ++ digits = write (Nat.ofDigitChars 10 digits n) := by
  -- each digit goes into the number before the next one is read
  induction digits generalizing n with
  | nil => simp
  | cons c digits ih =>
    obtain ⟨here, later⟩ := List.forall_mem_cons.1 all
    have range := isDigit_iff.1 here
    have zero : '0'.toNat = 0x30 := rfl
    have small : c.toNat - '0'.toNat < 10 := by omega
    have next : write n ++ [c] = write (10 * n + (c.toNat - '0'.toNat)) := by
      have joined := Nat.toDigits_append_toDigits (by decide : 1 < 10) pos small
      rwa [Nat.toDigits_of_lt_base small, digitChar_toNat_sub here] at joined
    calc write n ++ c :: digits
        = (write n ++ [c]) ++ digits := by simp
      _ = write (Nat.ofDigitChars 10 digits (10 * n + (c.toNat - '0'.toNat))) := by
        rw [next, ih (by omega) later]
      _ = write (Nat.ofDigitChars 10 (c :: digits) n) := by rw [Nat.ofDigitChars_cons]

theorem write_value {first : Char} {others : Text} (nonzero : first ≠ '0')
    (all : ∀ c ∈ first :: others, c.isDigit) : write (value (first :: others)) = first :: others := by
  obtain ⟨here, later⟩ := List.forall_mem_cons.1 all
  have range := isDigit_iff.1 here
  have zero : '0'.toNat = 0x30 := rfl
  have other : first.toNat ≠ '0'.toNat := fun same => nonzero (Char.toNat_inj.1 same)
  have small : first.toNat - '0'.toNat < 10 := by omega
  have digit : write (first.toNat - '0'.toNat) = [first] := by
    rw [write, Nat.toDigits_of_lt_base small, digitChar_toNat_sub here]
  have more := write_append (by omega : 0 < first.toNat - '0'.toNat) later
  rw [digit] at more
  rw [value, Nat.ofDigitChars_cons, Nat.mul_zero, Nat.zero_add, ← more, List.singleton_append]

theorem length_write_le {m n : Nat} (le : m ≤ n) : (write m).length ≤ (write n).length := by
  have pos : 0 < (write n).length := List.length_pos_iff.2 (write_ne_nil n)
  have wide : n < 10 ^ (write n).length :=
    (Nat.length_toDigits_le_iff (by decide) pos).1 (Nat.le_refl _)
  exact (Nat.length_toDigits_le_iff (by decide) pos).2 (Nat.lt_of_le_of_lt le wide)

/-- A number has no more digits than any of its numerals. -/
theorem length_write_value_le {digits : Text} (h : ∀ c ∈ digits, c.isDigit) {limit : Nat}
    (within : digits.length ≤ limit) (pos : 0 < limit) :
    (write (value digits)).length ≤ limit := by
  -- the value of the digits so far goes in front of the others
  have grown : ∀ sofar, Nat.ofDigitChars 10 digits sofar < (sofar + 1) * 10 ^ digits.length := by
    clear within
    induction digits with
    | nil => simp
    | cons c rest ih =>
      intro sofar
      obtain ⟨digit, digits⟩ := List.forall_mem_cons.1 h
      have range := isDigit_iff.1 digit
      have step := ih digits (10 * sofar + (c.toNat - '0'.toNat))
      have carry : 10 * sofar + (c.toNat - '0'.toNat) + 1 ≤ (sofar + 1) * 10 := by
        have zero : '0'.toNat = 48 := rfl
        omega
      rw [Nat.ofDigitChars_cons, List.length_cons, Nat.pow_succ, Nat.mul_comm _ 10, ← Nat.mul_assoc]
      exact Nat.lt_of_lt_of_le step (Nat.mul_le_mul_right _ carry)
  have small : value digits < 10 ^ digits.length := by
    simpa [value] using grown 0
  rw [write, Nat.length_toDigits_le_iff (by decide) pos]
  exact Nat.lt_of_lt_of_le small (Nat.pow_le_pow_right (by decide) within)

end EditorSettings.Decimal
