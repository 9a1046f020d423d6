import EditorSettings.Text.Basic

/-!
# UTF-8

Files and the names in a path are bytes; text is their reading as UTF-8.  Reading is strict: a
byte sequence is well formed only if it is the shortest encoding of a Unicode scalar value.

* `Utf8.encode` writes a text, one `String.utf8EncodeChar` after the other.
* `Utf8.decodeChar` reads one character and returns the bytes after it, or says why there is
  none; `length_decodeChar_lt` says that it consumes at least one byte.
* `Utf8.decode` reads a whole text and stops at the first malformed sequence.
-/

namespace EditorSettings.Utf8

inductive Malformed
  /-- No character starts with this byte. -/
  | badStart
  /-- A byte cannot continue the character it stands in. -/
  | badContinuation
  | truncated
  deriving DecidableEq, Repr

def Malformed.message : Malformed → Text
  | .badStart => "invalid start byte".toList
  | .badContinuation => "invalid continuation byte".toList
  | .truncated => "unexpected end of data".toList

/-! ## Writing -/

def encode (t : Text) : List UInt8 := t.flatMap String.utf8EncodeChar

@[simp] theorem encode_nil : encode [] = [] := rfl

@[simp] theorem encode_cons (c : Char) (t : Text) :
    encode (c :: t) = String.utf8EncodeChar c ++ encode t := rfl

@[simp] theorem encode_append (s t : Text) : encode (s ++ t) = encode s ++ encode t := by
  simp [encode]

/-! ## Reading one character -/

/-- Whether a byte continues a character that an earlier byte has started. -/
def isContinuation (b : UInt8) : Bool := 0x80 ≤ b && b < 0xC0

/-- What the first byte of a character longer than one byte announces. -/
structure Lead where
  /-- The bits of the character that the byte holds. -/
  bits : Nat
  low : UInt8
  high : UInt8
  /-- How many bytes follow the second. -/
  more : Nat

/-- The announcement of a byte from `0x80`; bytes that start no character announce nothing.
The bounds on the second byte rule out overlong forms, surrogates and what lies past the last
code point. -/
def lead? (b : UInt8) : Option Lead :=
  if b < 0xC2 then none
  else if b < 0xE0 then some ⟨b.toNat - 0xC0, 0x80, 0xBF, 0⟩
  else if b < 0xF0 then
    some ⟨b.toNat - 0xE0, if b = 0xE0 then 0xA0 else 0x80, if b = 0xED then 0x9F else 0xBF, 1⟩
  else if b < 0xF5 then
    some ⟨b.toNat - 0xF0, if b = 0xF0 then 0x90 else 0x80, if b = 0xF4 then 0x8F else 0xBF, 2⟩
  else none

/-- The bits of one continuation byte between two bounds, and the bytes after it. -/
def continuation (low high : UInt8) : List UInt8 → Except Malformed (Nat × List UInt8)
  | [] => .error .truncated
  | b :: rest =>
    if low ≤ b && b ≤ high then .ok (b.toNat - 0x80, rest) else .error .badContinuation

def continuations (count bits : Nat) (bytes : List UInt8) :
    Except Malformed (Nat × List UInt8) :=
  match count with
  | 0 => .ok (bits, bytes)
  | count + 1 =>
    match continuation 0x80 0xBF bytes with
    | .error e => .error e
    | .ok (next, rest) => continuations count (bits * 64 + next) rest

def decodeChar : List UInt8 → Except Malformed (Char × List UInt8)
  | [] => .error .truncated
  | b :: rest =>
    if b < 0x80 then .ok (Char.ofNat b.toNat, rest)
    else
      -- only the second byte has bounds that depend on the first
      match lead? b with
      | none => .error .badStart
      | some lead =>
        match continuation lead.low lead.high rest with
        | .error e => .error e
        | .ok (second, rest) =>
          match continuations lead.more (lead.bits * 64 + second) rest with
          | .error e => .error e
          | .ok (n, rest) => .ok (Char.ofNat n, rest)

/-! ## Progress -/

theorem length_continuation {low high : UInt8} {bytes rest : List UInt8} {n : Nat}
    (h : continuation low high bytes = .ok (n, rest)) : rest.length + 1 = bytes.length := by
  cases bytes with
  | nil => simp [continuation] at h
  | cons b more =>
    simp only [continuation] at h
    split at h
    · simp only [Except.ok.injEq, Prod.mk.injEq] at h
      simp [h.2]
    · cases h

theorem length_continuations {count bits n : Nat} {bytes rest : List UInt8}
    (h : continuations count bits bytes = .ok (n, rest)) :
    rest.length + count = bytes.length := by
  induction count generalizing bits bytes with
  | zero =>
    simp only [continuations, Except.ok.injEq, Prod.mk.injEq] at h
    simp [h.2]
  | succ count ih =>
    simp only [continuations] at h
    split at h
    · cases h
    · next next more hc =>
      have := length_continuation hc
      have := ih h
      omega

theorem length_decodeChar_lt {bytes rest : List UInt8} {c : Char}
    (h : decodeChar bytes = .ok (c, rest)) : rest.length < bytes.length := by
  cases bytes with
  | nil => simp [decodeChar] at h
  | cons b more =>
    simp only [decodeChar] at h
    split at h
    · simp only [Except.ok.injEq, Prod.mk.injEq] at h
      simp [h.2]
    · split at h
      · cases h
      · split at h
        · cases h
        · next second more' hs =>
          split at h
          · cases h
          · next n more'' hn =>
            simp only [Except.ok.injEq, Prod.mk.injEq] at h
            have := length_continuation hs
            have := length_continuations hn
            simp only [List.length_cons, ← h.2]
            omega

/-! ## Reading a text -/

/-- Read bytes as text, up to the first malformed sequence. -/
def decode (bytes : List UInt8) : Except Malformed Text :=
  match bytes with
  | [] => .ok []
  | b :: more =>
    match _h : decodeChar (b :: more) with
    | .error e => .error e
    | .ok (c, rest) =>
      match decode rest with
      | .error e => .error e
      | .ok t => .ok (c :: t)
termination_by bytes.length
decreasing_by exact length_decodeChar_lt _h

@[simp] theorem decode_nil : decode [] = .ok [] := by
  rw [decode]

def isWellFormed (bytes : List UInt8) : Bool := (decode bytes).toBool

end EditorSettings.Utf8
