import EditorSettings.Text.Decimal
import EditorSettings.Text.Printable

/-!
# Quoted text

Messages show a value between quotes, so that its end and its invisible characters can be seen.
The quote is `'`, or `"` for a value that holds a `'` and no `"`.  The backslash and the quote
are written after a backslash, and so are newline, carriage return and tab as letters; every
other code point that is not printable is written as `\xNN`, `\uNNNN` or `\UNNNNNNNN`.

* `Quoted.codePoints` quotes a list of code points, `Quoted.text` a text;
* `Quoted.bytes` quotes bytes, which show only visible ASCII as itself.
-/

namespace EditorSettings.Quoted

/-- The last `count` hexadecimal digits of a number, in lower case. -/
def hex (count n : Nat) : Text :=
  match count with
  | 0 => []
  | count + 1 => hex count (n / 16) ++ [Nat.digitChar (n % 16)]

def quoteFor (value : List Nat) : Char :=
  if value.contains '\''.toNat && !value.contains '"'.toNat then '"' else '\''

/-- The escapes that every quoted value shares, and what `other` makes of the rest. -/
def escape (quote : Char) (other : Nat → Text) (n : Nat) : Text :=
  if n = quote.toNat || n = '\\'.toNat then ['\\', Char.ofNat n]
  else if n = '\n'.toNat then "\\n".toList
  else if n = '\r'.toNat then "\\r".toList
  else if n = '\t'.toNat then "\\t".toList
  else other n

/-- A code point as itself if it is printable, else as its number. -/
def visible (n : Nat) : Text :=
  if Text.isPrintable n then [Char.ofNat n]
  else if n ≤ 0xFF then "\\x".toList ++ hex 2 n
  else if n ≤ 0xFFFF then "\\u".toList ++ hex 4 n
  else "\\U".toList ++ hex 8 n

/-- A byte as itself if it is visible ASCII, else as its number. -/
def visibleByte (n : Nat) : Text :=
  if 0x20 ≤ n && n ≤ 0x7E then [Char.ofNat n] else "\\x".toList ++ hex 2 n

def codePoints (value : List Nat) : Text :=
  let quote := quoteFor value
  [quote] ++ value.flatMap (escape quote visible) ++ [quote]

def text (t : Text) : Text := codePoints (t.map Char.toNat)

def bytes (value : List UInt8) : Text :=
  let value := value.map UInt8.toNat
  let quote := quoteFor value
  ['b', quote] ++ value.flatMap (escape quote visibleByte) ++ [quote]

end EditorSettings.Quoted
