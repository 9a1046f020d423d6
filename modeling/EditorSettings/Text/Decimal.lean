import EditorSettings.Text.Basic

/-!
# Whole numbers in decimal

Numbers are read from and written in ASCII digits.  Reading and writing are quadratic in the
number of digits, so both refuse a number of more than `digitLimit` digits: a settings file
cannot make its reader spend its time on one number.

* `Decimal.value` is the number that digits stand for, `Decimal.write` the digits of a number;
  `value_write` says that they are inverse.
* `Decimal.read` reads digits within the limit, `Decimal.width` counts the digits of a number
  within it.
-/

namespace EditorSettings

inductive TooManyDigits
  /-- The number was to be read, and has `count` digits. -/
  | reading (count : Nat)
  | writing
  deriving DecidableEq, Repr

namespace Decimal

/-- The most digits a number may have. -/
def digitLimit : Nat := 4300

/-- The ASCII digits of a number, without leading zeros. -/
def write (n : Nat) : Text := Nat.toDigits 10 n

/-- The digits of an integer, after a minus sign if it is negative. -/
def writeInt : Int → Text
  | .ofNat n => write n
  | .negSucc n => '-' :: write (n + 1)

/-- The number that a text of ASCII digits stands for. -/
def value (digits : Text) : Nat := Nat.ofDigitChars 10 digits 0

@[simp] theorem value_write (n : Nat) : value (write n) = n := Nat.ofDigitChars_ten_toDigits

theorem isDigit_of_mem_write {n : Nat} {c : Char} (h : c ∈ write n) : c.isDigit :=
  Nat.isDigit_of_mem_toDigits (by decide) (by decide) h

theorem write_ne_nil (n : Nat) : write n ≠ [] := Nat.toDigits_ne_nil

/-- The value of a text of digits within the limit.  Leading zeros count as digits. -/
def read (digits : Text) : Except TooManyDigits Nat :=
  if digitLimit < digits.length then .error (.reading digits.length) else .ok (value digits)

def width (n : Nat) : Except TooManyDigits Nat :=
  if digitLimit < (write n).length then .error .writing else .ok (write n).length

theorem read_eq_ok {digits : Text} (h : digits.length ≤ digitLimit) :
    read digits = .ok (value digits) := by
  simp [read, Nat.not_lt.mpr h]

theorem width_eq_ok {n : Nat} (h : (write n).length ≤ digitLimit) :
    width n = .ok (write n).length := by
  simp [width, Nat.not_lt.mpr h]

end Decimal

def TooManyDigits.message : TooManyDigits → Text
  | .reading count =>
    limit ++ ": value has ".toList ++ Decimal.write count ++ " digits".toList ++ advice
  | .writing => limit ++ advice
where
  limit : Text :=
    "Exceeds the limit (".toList ++ Decimal.write Decimal.digitLimit
      ++ " digits) for integer string conversion".toList
  advice : Text := "; use sys.set_int_max_str_digits() to increase the limit".toList

end EditorSettings
