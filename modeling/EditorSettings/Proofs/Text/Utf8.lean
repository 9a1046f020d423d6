import Mathlib.Data.List.Induction
import EditorSettings.Text.Utf8

/-! # UTF-8 there and back

A character is written as one of the byte sequences that `Sequence` lists, with the bounds under which
each is the shortest.  Reading and writing are both read off that list: what was written is read back
(`decode_encode`), and what can be read was written so (`isWellFormed_iff`).

Only the first byte of a sequence is no continuation, so text can be read from its end as well:
`encode_suffix_encode` says that a text whose bytes another one ends in is itself at its end.
-/

namespace EditorSettings.Utf8

/-! ## The bytes of one character -/

/-- The well-formed sequences, each with the code point that it stands for. -/
inductive Sequence : List UInt8 → Nat → Prop
  | one {a : UInt8} (ha : a.toNat < 0x80) : Sequence [a] a.toNat
  | two {a b : UInt8} (ha : 0xC2 ≤ a.toNat ∧ a.toNat < 0xE0) (hb : 0x80 ≤ b.toNat ∧ b.toNat < 0xC0) :
      Sequence [a, b] ((a.toNat - 0xC0) * 64 + (b.toNat - 0x80))
  | three {a b c : UInt8} (ha : 0xE0 ≤ a.toNat ∧ a.toNat < 0xF0)
      (hb : 0x80 ≤ b.toNat ∧ b.toNat < 0xC0) (hc : 0x80 ≤ c.toNat ∧ c.toNat < 0xC0)
      (overlong : a.toNat = 0xE0 → 0xA0 ≤ b.toNat) (surrogate : a.toNat = 0xED → b.toNat < 0xA0) :
      Sequence [a, b, c] (((a.toNat - 0xE0) * 64 + (b.toNat - 0x80)) * 64 + (c.toNat - 0x80))
  | four {a b c d : UInt8} (ha : 0xF0 ≤ a.toNat ∧ a.toNat < 0xF5)
      (hb : 0x80 ≤ b.toNat ∧ b.toNat < 0xC0) (hc : 0x80 ≤ c.toNat ∧ c.toNat < 0xC0)
      (hd : 0x80 ≤ d.toNat ∧ d.toNat < 0xC0)
      (overlong : a.toNat = 0xF0 → 0x90 ≤ b.toNat) (beyond : a.toNat = 0xF4 → b.toNat < 0x90) :
      Sequence [a, b, c, d]
        ((((a.toNat - 0xF0) * 64 + (b.toNat - 0x80)) * 64 + (c.toNat - 0x80)) * 64 + (d.toNat - 0x80))

theorem toNat_ofNat {n : Nat} (valid : n.isValidChar) : (Char.ofNat n).toNat = n := by
  have made : Char.ofNat n = Char.ofNatAux n valid := dif_pos valid
  rw [made]
  rfl

theorem ofNat_eq {n : Nat} {b : UInt8} (h : n = b.toNat) : UInt8.ofNat n = b := by
  rw [h, UInt8.ofNat_toNat]

theorem sequence_encodeChar (c : Char) : Sequence (String.utf8EncodeChar c) c.toNat := by
  have valid : c.toNat.isValidChar := c.valid
  simp only [Nat.isValidChar] at valid
  have value : c.val.toNat = c.toNat := rfl
  have byte {n : Nat} (h : n < 256) : (UInt8.ofNat n).toNat = n := UInt8.toNat_ofNat_of_lt' h
  rw [String.utf8EncodeChar.eq_1, value]
  generalize c.toNat = v at valid
  split
  · have a := byte (n := v) (by omega)
    have s := Sequence.one (a := .ofNat v) (by omega)
    rwa [a] at s
  split
  · have a := byte (n := v / 64 % 32 + 192) (by omega)
    have b := byte (n := v % 64 + 128) (by omega)
    have s := Sequence.two (a := .ofNat (v / 64 % 32 + 192)) (b := .ofNat (v % 64 + 128)) (by omega)
      (by omega)
    rw [a, b] at s
    convert s using 1
    omega
  split
  · have a := byte (n := v / 4096 % 16 + 224) (by omega)
    have b := byte (n := v / 64 % 64 + 128) (by omega)
    have c := byte (n := v % 64 + 128) (by omega)
    have s := Sequence.three (a := .ofNat (v / 4096 % 16 + 224)) (b := .ofNat (v / 64 % 64 + 128))
      (c := .ofNat (v % 64 + 128)) (by omega) (by omega) (by omega) (by omega) (by omega)
    rw [a, b, c] at s
    convert s using 1
    omega
  · have a := byte (n := v / 262144 % 8 + 240) (by omega)
    have b := byte (n := v / 4096 % 64 + 128) (by omega)
    have c := byte (n := v / 64 % 64 + 128) (by omega)
    have d := byte (n := v % 64 + 128) (by omega)
    have s := Sequence.four (a := .ofNat (v / 262144 % 8 + 240)) (b := .ofNat (v / 4096 % 64 + 128))
      (c := .ofNat (v / 64 % 64 + 128)) (d := .ofNat (v % 64 + 128)) (by omega) (by omega) (by omega)
      (by omega) (by omega) (by omega)
    rw [a, b, c, d] at s
    convert s using 1
    omega

theorem Sequence.eq_encodeChar {s : List UInt8} {n : Nat} (h : Sequence s n) :
    (Char.ofNat n).toNat = n ∧ s = String.utf8EncodeChar (Char.ofNat n) := by
  have valid : n.isValidChar := by
    unfold Nat.isValidChar
    cases h <;> omega
  have value : (Char.ofNat n).toNat = n := toNat_ofNat valid
  refine ⟨value, ?_⟩
  rw [String.utf8EncodeChar.eq_1, show (Char.ofNat n).val.toNat = n from value]
  cases h with
  | one ha => rw [if_pos (by omega), UInt8.ofNat_toNat]
  | @two a b ha hb =>
    rw [if_neg (by omega), if_pos (by omega)]
    rw [ofNat_eq (b := a) (by omega), ofNat_eq (b := b) (by omega)]
  | @three a b c ha hb hc overlong surrogate =>
    rw [if_neg (by omega), if_neg (by omega), if_pos (by omega)]
    rw [ofNat_eq (b := a) (by omega), ofNat_eq (b := b) (by omega), ofNat_eq (b := c) (by omega)]
  | @four a b c d ha hb hc hd overlong beyond =>
    rw [if_neg (by omega), if_neg (by omega), if_neg (by omega)]
    rw [ofNat_eq (b := a) (by omega), ofNat_eq (b := b) (by omega), ofNat_eq (b := c) (by omega),
      ofNat_eq (b := d) (by omega)]

/-! ## Reading -/

theorem continuation_of_mem {low high b : UInt8} {rest : List UInt8} (hl : low.toNat ≤ b.toNat)
    (hh : b.toNat ≤ high.toNat) :
    continuation low high (b :: rest) = .ok (b.toNat - 0x80, rest) := by
  have both : (low ≤ b && b ≤ high) = true := by
    simp [UInt8.le_iff_toNat_le, hl, hh]
  rw [continuation, if_pos both]

theorem lead?_two {a : UInt8} (ha : 0xC2 ≤ a.toNat ∧ a.toNat < 0xE0) :
    lead? a = some ⟨a.toNat - 0xC0, 0x80, 0xBF, 0⟩ := by
  simp only [lead?, UInt8.lt_iff_toNat_lt]
  rw [if_neg (by simp; omega), if_pos (by simp; omega)]

theorem lead?_three {a : UInt8} (ha : 0xE0 ≤ a.toNat ∧ a.toNat < 0xF0) :
    lead? a = some ⟨a.toNat - 0xE0, if a = 0xE0 then 0xA0 else 0x80,
      if a = 0xED then 0x9F else 0xBF, 1⟩ := by
  simp only [lead?, UInt8.lt_iff_toNat_lt]
  rw [if_neg (by simp; omega), if_neg (by simp; omega), if_pos (by simp; omega)]

theorem lead?_four {a : UInt8} (ha : 0xF0 ≤ a.toNat ∧ a.toNat < 0xF5) :
    lead? a = some ⟨a.toNat - 0xF0, if a = 0xF0 then 0x90 else 0x80,
      if a = 0xF4 then 0x8F else 0xBF, 2⟩ := by
  simp only [lead?, UInt8.lt_iff_toNat_lt]
  rw [if_neg (by simp; omega), if_neg (by simp; omega), if_neg (by simp; omega),
    if_pos (by simp; omega)]

theorem continuations_cons {b : UInt8} (hb : 0x80 ≤ b.toNat ∧ b.toNat < 0xC0) (count bits : Nat)
    (rest : List UInt8) :
    continuations (count + 1) bits (b :: rest) =
      continuations count (bits * 64 + (b.toNat - 0x80)) rest := by
  rw [continuations, continuation_of_mem (by exact hb.1) (by exact Nat.le_of_lt_succ hb.2)]

theorem ite_le_iff {a b x y z : UInt8} (le : z.toNat ≤ y.toNat) :
    (if a = x then y else z).toNat ≤ b.toNat ↔
      (a.toNat = x.toNat → y.toNat ≤ b.toNat) ∧ z.toNat ≤ b.toNat := by
  split
  next same => exact ⟨fun h => ⟨fun _ => h, Nat.le_trans le h⟩, fun h => h.1 (congrArg _ same)⟩
  next other => exact ⟨fun h => ⟨fun same => absurd (UInt8.toNat_inj.1 same) other, h⟩, And.right⟩

theorem le_ite_iff {a b x y z : UInt8} (le : y.toNat ≤ z.toNat) :
    b.toNat ≤ (if a = x then y else z).toNat ↔
      (a.toNat = x.toNat → b.toNat ≤ y.toNat) ∧ b.toNat ≤ z.toNat := by
  split
  next same => exact ⟨fun h => ⟨fun _ => h, Nat.le_trans h le⟩, fun h => h.1 (congrArg _ same)⟩
  next other => exact ⟨fun h => ⟨fun same => absurd (UInt8.toNat_inj.1 same) other, h⟩, And.right⟩

theorem decodeChar_of_lead {a b : UInt8} {lead : Lead} {n : Nat} {more rest : List UInt8}
    (ha : 0x80 ≤ a.toNat) (announced : lead? a = some lead) (low : lead.low.toNat ≤ b.toNat)
    (high : b.toNat ≤ lead.high.toNat)
    (read : continuations lead.more (lead.bits * 64 + (b.toNat - 0x80)) more = .ok (n, rest)) :
    decodeChar (a :: b :: more) = .ok (Char.ofNat n, rest) := by
  have long : ¬ a < 0x80 := by
    simp only [UInt8.lt_iff_toNat_lt, Nat.not_lt]
    exact ha
  simp only [decodeChar, if_neg long, announced, continuation_of_mem low high, read]

theorem Sequence.decodeChar_eq {s : List UInt8} {n : Nat} (h : Sequence s n) (rest : List UInt8) :
    decodeChar (s ++ rest) = .ok (Char.ofNat n, rest) := by
  cases h with
  | one ha => rw [List.singleton_append, decodeChar, if_pos (UInt8.lt_iff_toNat_lt.2 ha)]
  | two ha hb =>
    exact decodeChar_of_lead (by omega) (lead?_two ha) hb.1 (Nat.le_of_lt_succ hb.2) rfl
  | three ha hb hc overlong surrogate =>
    refine decodeChar_of_lead (by omega) (lead?_three ha) ?_ ?_ (continuations_cons hc _ _ _)
    · exact (ite_le_iff (by decide)).2 ⟨overlong, hb.1⟩
    · exact (le_ite_iff (by decide)).2
        ⟨fun same => Nat.le_of_lt_succ (surrogate same), Nat.le_of_lt_succ hb.2⟩
  | four ha hb hc hd overlong beyond =>
    refine decodeChar_of_lead (by omega) (lead?_four ha) ?_ ?_
      ((continuations_cons hc _ _ _).trans (continuations_cons hd _ _ _))
    · exact (ite_le_iff (by decide)).2 ⟨overlong, hb.1⟩
    · exact (le_ite_iff (by decide)).2
        ⟨fun same => Nat.le_of_lt_succ (beyond same), Nat.le_of_lt_succ hb.2⟩

theorem decodeChar_encodeChar (c : Char) (rest : List UInt8) :
    decodeChar (String.utf8EncodeChar c ++ rest) = .ok (c, rest) := by
  rw [(sequence_encodeChar c).decodeChar_eq, Char.ofNat_toNat]

theorem bounds_of_continuation {low high : UInt8} {bytes rest : List UInt8} {n : Nat}
    (h : continuation low high bytes = .ok (n, rest)) :
    ∃ b : UInt8, bytes = b :: rest ∧ n = b.toNat - 0x80 ∧
      low.toNat ≤ b.toNat ∧ b.toNat ≤ high.toNat := by
  cases bytes with
  | nil => cases h
  | cons b more =>
    rw [continuation] at h
    split at h
    next inside =>
      obtain ⟨value, same⟩ := Prod.mk.inj (Except.ok.inj h)
      simp only [Bool.and_eq_true, decide_eq_true_eq, UInt8.le_iff_toNat_le] at inside
      exact ⟨b, by rw [same], value.symm, inside⟩
    · cases h

theorem cons_of_continuations {count bits n : Nat} {bytes rest : List UInt8}
    (h : continuations (count + 1) bits bytes = .ok (n, rest)) :
    ∃ (b : UInt8) (more : List UInt8), bytes = b :: more ∧ (0x80 ≤ b.toNat ∧ b.toNat < 0xC0) ∧
      continuations count (bits * 64 + (b.toNat - 0x80)) more = .ok (n, rest) := by
  rw [continuations] at h
  split at h
  · cases h
  next read =>
    obtain ⟨b, shape, value, low, high⟩ := bounds_of_continuation read
    exact ⟨b, _, shape, ⟨low, Nat.lt_succ_of_le high⟩, value ▸ h⟩

theorem sequence_of_lead {a b : UInt8} {lead : Lead} {n : Nat} {more rest : List UInt8}
    (announced : lead? a = some lead) (low : lead.low.toNat ≤ b.toNat)
    (high : b.toNat ≤ lead.high.toNat)
    (read : continuations lead.more (lead.bits * 64 + (b.toNat - 0x80)) more = .ok (n, rest)) :
    ∃ s, Sequence s n ∧ a :: b :: more = s ++ rest := by
  simp only [lead?, UInt8.lt_iff_toNat_lt] at announced
  split at announced
  · cases announced
  next least =>
  split at announced
  next two =>
    rw [← Option.some.inj announced] at low high read
    obtain ⟨value, same⟩ := Prod.mk.inj (Except.ok.inj read)
    rw [← value, ← same]
    exact ⟨[a, b], .two ⟨Nat.le_of_not_lt least, two⟩ ⟨low, Nat.lt_succ_of_le high⟩, rfl⟩
  next long =>
  split at announced
  next three =>
    rw [← Option.some.inj announced] at low high read
    obtain ⟨c, left, shape, hc, read⟩ := cons_of_continuations read
    obtain ⟨value, same⟩ := Prod.mk.inj (Except.ok.inj read)
    rw [shape, ← value, ← same]
    obtain ⟨overlong, low⟩ := (ite_le_iff (by decide)).1 low
    obtain ⟨surrogate, high⟩ := (le_ite_iff (by decide)).1 high
    exact ⟨[a, b, c], .three ⟨Nat.le_of_not_lt long, three⟩ ⟨low, Nat.lt_succ_of_le high⟩ hc overlong
      fun h => Nat.lt_succ_of_le (surrogate h), rfl⟩
  next longer =>
  split at announced
  next four =>
    rw [← Option.some.inj announced] at low high read
    obtain ⟨c, left, shape, hc, read⟩ := cons_of_continuations read
    obtain ⟨d, left', shape', hd, read⟩ := cons_of_continuations read
    obtain ⟨value, same⟩ := Prod.mk.inj (Except.ok.inj read)
    rw [shape, shape', ← value, ← same]
    obtain ⟨overlong, low⟩ := (ite_le_iff (by decide)).1 low
    obtain ⟨beyond, high⟩ := (le_ite_iff (by decide)).1 high
    exact ⟨[a, b, c, d], .four ⟨Nat.le_of_not_lt longer, four⟩ ⟨low, Nat.lt_succ_of_le high⟩ hc hd
      overlong fun h => Nat.lt_succ_of_le (beyond h), rfl⟩
  · cases announced

theorem sequence_of_decodeChar {bytes rest : List UInt8} {c : Char}
    (h : decodeChar bytes = .ok (c, rest)) :
    ∃ s n, Sequence s n ∧ bytes = s ++ rest ∧ c = Char.ofNat n := by
  cases bytes with
  | nil => cases h
  | cons a more =>
    rw [decodeChar] at h
    split at h
    next short =>
      cases h
      exact ⟨[a], a.toNat, .one (UInt8.lt_iff_toNat_lt.1 short), rfl, rfl⟩
    split at h
    · cases h
    next lead announced =>
    split at h
    · cases h
    next second more read =>
    obtain ⟨b, shape, value, low, high⟩ := bounds_of_continuation read
    rw [value] at h
    split at h
    · cases h
    next n left read =>
    obtain ⟨char, same⟩ := Prod.mk.inj (Except.ok.inj h)
    rw [same] at read
    obtain ⟨s, sequence, whole⟩ := sequence_of_lead announced low high read
    exact ⟨s, n, sequence, shape ▸ whole, char.symm⟩

theorem eq_encodeChar_of_decodeChar {bytes rest : List UInt8} {c : Char}
    (h : decodeChar bytes = .ok (c, rest)) : bytes = String.utf8EncodeChar c ++ rest := by
  obtain ⟨s, n, sequence, rfl, rfl⟩ := sequence_of_decodeChar h
  rw [← sequence.eq_encodeChar.2]

/-- What is written can be read. -/
theorem decode_encode (t : Text) : decode (encode t) = .ok t := by
  induction t with
  | nil => exact decode_nil
  | cons c t ih =>
    have read := decodeChar_encodeChar c (encode t)
    rw [encode_cons]
    cases bytes : String.utf8EncodeChar c ++ encode t with
    | nil => simp [String.utf8EncodeChar_ne_nil] at bytes
    | cons b more =>
      rw [bytes] at read
      rw [decode]
      split <;> simp_all

/-- What can be read was written. -/
theorem encode_of_decode {bytes : List UInt8} {t : Text} (h : decode bytes = .ok t) :
    encode t = bytes := by
  fun_induction decode bytes generalizing t with
  | case1 =>
    cases h
    rfl
  | case2 => cases h
  | case3 => cases h
  | case4 b more c rest read t reads ih =>
    cases h
    rw [encode_cons, ih reads, eq_encodeChar_of_decodeChar read]

theorem isWellFormed_iff {bytes : List UInt8} : isWellFormed bytes ↔ ∃ t, encode t = bytes := by
  unfold isWellFormed
  constructor
  · intro reads
    cases h : decode bytes with
    | error e => simp [h, Except.toBool] at reads
    | ok t => exact ⟨t, encode_of_decode h⟩
  · rintro ⟨t, rfl⟩
    rw [decode_encode]
    rfl

theorem exists_texts {names : List (List UInt8)}
    (readable : ∀ name ∈ names, isWellFormed name = true) :
    ∃ texts : List Text, texts.map encode = names := by
  induction names with
  | nil => exact ⟨[], rfl⟩
  | cons name names ih =>
    obtain ⟨here, others⟩ := List.forall_mem_cons.1 readable
    obtain ⟨t, rfl⟩ := isWellFormed_iff.1 here
    obtain ⟨texts, rfl⟩ := ih others
    exact ⟨t :: texts, rfl⟩

theorem encode_injective {s t : Text} (h : encode s = encode t) : s = t := by
  have read := decode_encode s
  rw [h, decode_encode] at read
  exact (Except.ok.inj read).symm

theorem encode_singleton (c : Char) : encode [c] = String.utf8EncodeChar c :=
  List.append_nil _

theorem encode_eq_nil {t : Text} : encode t = [] ↔ t = [] :=
  ⟨fun h => encode_injective h, fun h => h ▸ encode_nil⟩

/-- Text is read from its start, so the characters that bytes start with are told by the bytes. -/
theorem encode_prefix_encode {s t : Text} : encode s <+: encode t ↔ s <+: t := by
  constructor
  · rintro ⟨more, whole⟩
    induction s generalizing t with
    | nil => exact List.nil_prefix
    | cons c s ih =>
      have read := decodeChar_encodeChar c (encode s ++ more)
      rw [← List.append_assoc, ← encode_cons, whole] at read
      cases t with
      | nil => cases read
      | cons d t =>
        rw [encode_cons, decodeChar_encodeChar] at read
        obtain ⟨same, rest⟩ := Prod.mk.inj (Except.ok.inj read)
        exact same ▸ List.cons_prefix_cons.2 ⟨rfl, ih rest.symm⟩
  · rintro ⟨more, rfl⟩
    exact ⟨encode more, (encode_append s more).symm⟩

/-! ## Reading from the end -/

theorem isContinuation_of_mem {b : UInt8} (hb : 0x80 ≤ b.toNat ∧ b.toNat < 0xC0) :
    isContinuation b = true := by
  simp [isContinuation, UInt8.le_iff_toNat_le, UInt8.lt_iff_toNat_lt, hb]

theorem isContinuation_of_not_mem {b : UInt8} (hb : b.toNat < 0x80 ∨ 0xC0 ≤ b.toNat) :
    isContinuation b = false := by
  simp [isContinuation, UInt8.le_iff_toNat_le, UInt8.lt_iff_toNat_lt]
  omega

/-- A sequence is a first byte and at most three continuations. -/
theorem Sequence.shape {s : List UInt8} {n : Nat} (h : Sequence s n) :
    ∃ first others, s = first :: others ∧ isContinuation first = false ∧ others.length ≤ 3 ∧
      ∀ b ∈ others, isContinuation b = true := by
  cases h with
  | one ha => exact ⟨_, _, rfl, isContinuation_of_not_mem (.inl ha), by simp, by simp⟩
  | two ha hb =>
    refine ⟨_, _, rfl, isContinuation_of_not_mem (.inr (by omega)), by simp, ?_⟩
    simp [isContinuation_of_mem hb]
  | three ha hb hc =>
    refine ⟨_, _, rfl, isContinuation_of_not_mem (.inr (by omega)), by simp, ?_⟩
    simp [isContinuation_of_mem hb, isContinuation_of_mem hc]
  | four ha hb hc hd =>
    refine ⟨_, _, rfl, isContinuation_of_not_mem (.inr (by omega)), by simp, ?_⟩
    simp [isContinuation_of_mem hb, isContinuation_of_mem hc, isContinuation_of_mem hd]

/-- So the continuations at the end of bytes tell how long the sequence is that they end in. -/
theorem Sequence.length_eq {s : List UInt8} {n : Nat} (h : Sequence s n) (before : List UInt8) :
    s.length = ((before ++ s).reverse.takeWhile isContinuation).length + 1 := by
  obtain ⟨first, others, rfl, start, _, follow⟩ := h.shape
  have order : (before ++ first :: others).reverse = others.reverse ++ first :: before.reverse := by
    simp
  rw [order, List.takeWhile_append_of_pos fun b member => follow b (List.mem_reverse.1 member)]
  simp [start]

theorem Sequence.eq_singleton {s : List UInt8} {n : Nat} (h : Sequence s n) (ascii : n < 0x80) :
    s = [UInt8.ofNat n] := by
  cases h with
  | one => rw [UInt8.ofNat_toNat]
  | two | three | four => omega

/-- No other sequence has a byte of ASCII. -/
theorem Sequence.le_of_mem {s : List UInt8} {n : Nat} (h : Sequence s n) (wide : 0x80 ≤ n) :
    ∀ b ∈ s, 0x80 ≤ b.toNat := by
  cases h with
  | one => omega
  | two | three | four =>
    simp only [List.forall_mem_cons, List.not_mem_nil, false_imp_iff, implies_true, and_true]
    omega

theorem encodeChar_of_append {xs ys : List UInt8} {c d : Char}
    (h : xs ++ String.utf8EncodeChar c = ys ++ String.utf8EncodeChar d) : xs = ys ∧ c = d := by
  have width := (sequence_encodeChar c).length_eq xs
  rw [h, ← (sequence_encodeChar d).length_eq ys] at width
  obtain ⟨before, same⟩ := List.append_inj' h width
  have read := decodeChar_encodeChar c []
  rw [same, decodeChar_encodeChar] at read
  exact ⟨before, (Prod.mk.inj (Except.ok.inj read)).1.symm⟩

/-- Text can also be read from its end. -/
theorem encode_suffix_encode {s t : Text} : encode s <:+ encode t ↔ s <:+ t := by
  constructor
  · rintro ⟨more, whole⟩
    induction s using List.reverseRecOn generalizing t with
    | nil => exact List.nil_suffix
    | append_singleton s c ih =>
      rw [encode_append, ← List.append_assoc, encode_singleton] at whole
      cases t using List.reverseRecOn with
      | nil => simp [String.utf8EncodeChar_ne_nil] at whole
      | append_singleton t d =>
        rw [encode_append, encode_singleton] at whole
        obtain ⟨before, rfl⟩ := encodeChar_of_append whole
        obtain ⟨front, rfl⟩ := ih before
        exact ⟨front, by simp⟩
  · rintro ⟨more, rfl⟩
    exact ⟨encode more, (encode_append more s).symm⟩

end EditorSettings.Utf8
