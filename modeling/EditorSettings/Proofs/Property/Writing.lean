import EditorSettings.Proofs.Property.Spelling

/-! # How values are written

What a value is written as is one of its spellings (`Spells.text`), and no spelling can be taken for one that
says that nothing is set (`Spells.isSet`).
-/

namespace EditorSettings

/-- A text that sets something: it is neither empty nor the word `unset`. -/
structure IsSet (t : Text) : Prop where
  ne : t ≠ []
  word : Text.lower t ≠ "unset".toList

variable {t digits : Text} {v : Property}

/-! ## Letters -/

/-- The characters go from letters to letters, and then no further. -/
def KeepsLetters (change : Char → Char) : Prop :=
  ∀ c : Char, c.isAlpha → (change c).isAlpha ∧ change (change c) = change c

section Letters

variable {change : Char → Char}

theorem ascii_of_isAlpha {c : Char} (letter : c.isAlpha) : c.toNat < 0x80 := by
  have lastCapital : 'Z'.toNat = 0x5A := rfl
  have lastSmall : 'z'.toNat = 0x7A := rfl
  obtain capital | small := Bool.or_eq_true_iff.1 letter
  · have high : c.toNat ≤ 'Z'.toNat := (of_decide_eq_true capital).2
    omega
  · have high : c.toNat ≤ 'z'.toNat := of_decide_eq_true (Bool.and_eq_true_iff.1 small).2
    omega

theorem keepsLetters_of_ascii (all : ∀ n, n < 0x80 → (Char.ofNat n).isAlpha →
    (change (Char.ofNat n)).isAlpha ∧ change (change (Char.ofNat n)) = change (Char.ofNat n)) :
    KeepsLetters change := by
  intro c letter
  have here := all c.toNat (ascii_of_isAlpha letter)
  rw [Char.ofNat_toNat] at here
  exact here letter

theorem keepsLetters_toLower : KeepsLetters Char.toLower := keepsLetters_of_ascii (by decide)

theorem keepsLetters_toUpper : KeepsLetters Char.toUpper := keepsLetters_of_ascii (by decide)

namespace PropertyKind

theorem ascii_of_isLetterPair (letters : isLetterPair t) : ∀ c ∈ t, c.toNat < 0x80 := by
  obtain ⟨a, b, rfl, first, second⟩ := isLetterPair_iff.1 letters
  exact List.forall_mem_cons.2 ⟨ascii_of_isAlpha first, List.forall_mem_singleton.2 (ascii_of_isAlpha second)⟩

theorem isLetterPair_map (keeps : KeepsLetters change) (letters : isLetterPair t) :
    isLetterPair (t.map change) := by
  obtain ⟨a, b, rfl, first, second⟩ := isLetterPair_iff.1 letters
  exact isLetterPair_iff.2 ⟨change a, change b, rfl, (keeps a first).1, (keeps b second).1⟩

theorem map_map_of_isLetterPair (keeps : KeepsLetters change) (letters : isLetterPair t) :
    (t.map change).map change = t.map change := by
  obtain ⟨a, b, rfl, first, second⟩ := isLetterPair_iff.1 letters
  simp [(keeps a first).2, (keeps b second).2]

end PropertyKind

end Letters

/-! ## Written values -/

open PropertyKind

theorem Property.text_of_columns? {n : Nat} (columns : v.columns? = some n) : v.text = Decimal.write n := by
  cases v with
  | tabWidth => cases columns; rfl
  | indentSize size => cases size <;> cases columns; rfl
  | maxLineLength length => cases length <;> cases columns; rfl
  | _ => cases columns

namespace Spells

/-- What a value is written as is one of its spellings. -/
theorem text (spells : Spells t v) : Spells v.text v := by
  cases spells with
  | word isWord same => exact .word isWord (by rw [← same, Text.lower_lower])
  | number columns whole short =>
    rw [v.text_of_columns? columns]
    refine .number ?_ (isWhole_write _) (Decimal.length_write_value_le whole.all short (by decide))
    rw [columns, Decimal.value_write]
  | language letters =>
    have spells := Spells.language (isLetterPair_map keepsLetters_toLower letters)
    rwa [map_map_of_isLetterPair keepsLetters_toLower letters] at spells
  | region letters letters' =>
    have spells := Spells.region (isLetterPair_map keepsLetters_toLower letters)
      (isLetterPair_map keepsLetters_toUpper letters')
    rw [map_map_of_isLetterPair keepsLetters_toLower letters,
      map_map_of_isLetterPair keepsLetters_toUpper letters'] at spells
    simpa [Property.text, LanguageTag.text] using spells

theorem length_write_le (spells : Spells t v) {n : Nat} (columns : v.columns? = some n) :
    (Decimal.write n).length ≤ Decimal.digitLimit := by
  cases spells with
  | word isWord => cases columns.symm.trans isWord.1
  | number columns' whole short =>
    cases columns.symm.trans columns'
    exact Decimal.length_write_value_le whole.all short (by decide)
  | language | region => cases columns

end Spells

/-! ## Spellings are set -/

theorem IsSet.of_lower (h : IsSet (Text.lower t)) : IsSet t where
  ne empty := h.ne (Text.lower_eq_nil_iff.2 empty)
  word unset := h.word (by rw [unset]; decide)

theorem IsWhole.isSet (whole : IsWhole t digits) : IsSet t where
  ne empty := whole.lower_ne rfl (Text.lower_eq_nil_iff.2 empty)
  word := whole.lower_ne rfl

theorem Property.isSet_of_isWord (isWord : v.IsWord) : IsSet v.text := by
  cases v with
  | indentStyle style => cases style <;> exact ⟨by decide, by decide⟩
  | endOfLine ending => cases ending <;> exact ⟨by decide, by decide⟩
  | charset encoding => cases encoding <;> exact ⟨by decide, by decide⟩
  | trimTrailingWhitespace b | insertFinalNewline b => cases b <;> exact ⟨by decide, by decide⟩
  | indentSize size =>
    cases size with
    | tab => exact ⟨by decide, by decide⟩
    | columns n => cases isWord.1
  | maxLineLength length =>
    cases length with
    | off => exact ⟨by decide, by decide⟩
    | columns n => cases isWord.1
  | tabWidth n => cases isWord.1
  | spellingLanguage tag => exact absurd rfl isWord.2

theorem PropertyKind.isSet_of_isLetterPair (letters : isLetterPair t) : IsSet t := by
  have ascii := ascii_of_isLetterPair letters
  obtain ⟨a, b, rfl, _⟩ := isLetterPair_iff.1 letters
  refine ⟨List.cons_ne_nil _ _, ?_⟩
  rw [Text.lower, Text.lowerAfter_of_ascii _ ascii]
  simp

/-- No value is spelled like one that is not set. -/
theorem Spells.isSet (spells : Spells t v) : IsSet t := by
  cases spells with
  | word isWord same => exact .of_lower (same ▸ v.isSet_of_isWord isWord)
  | number columns whole => exact whole.isSet
  | language letters => exact isSet_of_isLetterPair letters
  | @region primary region letters letters' =>
    have ascii : ∀ c ∈ primary ++ '-' :: region, c.toNat < 0x80 :=
      List.forall_mem_append.2 ⟨ascii_of_isLetterPair letters,
        List.forall_mem_cons.2 ⟨by decide, ascii_of_isLetterPair letters'⟩⟩
    -- in lower case the hyphen is still there
    have hyphen : Text.lowerChar '-' ∈ Text.lower (primary ++ '-' :: region) := by
      rw [Text.lower, Text.lowerAfter_of_ascii _ ascii]
      exact List.mem_map_of_mem (by simp)
    refine ⟨by simp, fun unset => ?_⟩
    rw [unset] at hyphen
    exact absurd hyphen (by decide)

end EditorSettings
