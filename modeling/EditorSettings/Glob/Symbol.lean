import EditorSettings.Text.Utf8

/-!
# Symbols of a pattern

A pattern is a list of symbols, and every code point is a symbol.  Most are characters.  The
surrogates are no characters, but they have a place in the order of the code points, so the
ranges of a class run over them, and 128 of them stand for the bytes that are part of no
well-formed UTF-8: byte `b` is U+DC00 + `b`.  No well-formed text holds a surrogate, so every
byte sequence has one reading as symbols and the reading gives the bytes back.

* `Symbol.codePoint` and `Symbol.ofCodePoint` number the symbols (`ofCodePoint_codePoint`);
* `Symbol.bytes?` is what a symbol stands for in a path, `Symbol.encode?` the same for a list;
* `Symbol.ofText` and `Symbol.ofBytes` read a pattern from text and from raw bytes.
-/

namespace EditorSettings

/-- One code point of a pattern. -/
inductive Symbol
  | scalar (c : Char)
  /-- The surrogate U+D800 + `offset`. -/
  | surrogate (offset : Fin 0x800)
  deriving DecidableEq, Repr

namespace Symbol

/-- The number of a symbol in the order of the code points. -/
def codePoint : Symbol → Nat
  | .scalar c => c.toNat
  | .surrogate offset => 0xD800 + offset

def ofCodePoint (n : Nat) : Symbol :=
  if n.isValidChar then .scalar (Char.ofNat n) else .surrogate (Fin.ofNat 0x800 (n - 0xD800))

@[simp] theorem codePoint_scalar (c : Char) : (scalar c).codePoint = c.toNat := rfl

@[simp] theorem ofCodePoint_codePoint (s : Symbol) : ofCodePoint s.codePoint = s := by
  cases s with
  | scalar c => simp [ofCodePoint, codePoint, show c.toNat.isValidChar from c.valid]
  | surrogate offset =>
    have bound := offset.isLt
    have invalid : ¬ (0xD800 + offset.val).isValidChar := by
      simp only [Nat.isValidChar]; omega
    simp only [ofCodePoint, codePoint, if_neg invalid, Nat.add_sub_cancel_left]
    congr 1
    exact Fin.ext (Nat.mod_eq_of_lt bound)

theorem codePoint_injective {s t : Symbol} (h : s.codePoint = t.codePoint) : s = t := by
  rw [← ofCodePoint_codePoint s, h, ofCodePoint_codePoint]

/-! ## Symbols as bytes -/

/-- The bytes a symbol stands for in a path.  A surrogate stands for a byte only if it is one
of the 128 that do. -/
def bytes? : Symbol → Option (List UInt8)
  | .scalar c => some (String.utf8EncodeChar c)
  | .surrogate offset =>
    if 0x480 ≤ offset.val ∧ offset.val < 0x500 then some [UInt8.ofNat (offset.val - 0x400)]
    else none

def encode? : List Symbol → Option (List UInt8)
  | [] => some []
  | s :: rest =>
    match s.bytes?, encode? rest with
    | some bs, some more => some (bs ++ more)
    | _, _ => none

/-- The symbol of a byte that is part of no well-formed sequence. -/
def ofByte (b : UInt8) : Symbol := .surrogate (Fin.ofNat 0x800 (0x400 + b.toNat))

def ofText (t : Text) : List Symbol := t.map .scalar

/-- Read bytes as symbols.  A byte that starts no character counts alone. -/
def ofBytes (bytes : List UInt8) : List Symbol :=
  match bytes with
  | [] => []
  | b :: more =>
    match _h : Utf8.decodeChar (b :: more) with
    | .error _ => ofByte b :: ofBytes more
    | .ok (c, rest) => .scalar c :: ofBytes rest
termination_by bytes.length
decreasing_by
  · simp
  · exact Utf8.length_decodeChar_lt _h

@[simp] theorem encode?_ofText (t : Text) : encode? (ofText t) = some (Utf8.encode t) := by
  induction t with
  | nil => rfl
  | cons c rest ih =>
    simp only [ofText, List.map_cons] at ih ⊢
    simp [encode?, bytes?, ih]

end Symbol

end EditorSettings
