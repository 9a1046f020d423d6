import EditorSettings.Proofs.Properties.Fallbacks
import EditorSettings.Proofs.Property.Writing

/-! # The meaning of what is stored

The meaning of a property is read off its effective value, if one is set (`property_of_unset`,
`property_of_set`).  So it is a value, nothing, or a refusal, unless a number has too many digits
(`values_read_or_refused`), and a value that was read is read again after it was stored
(`stored_value_read_again`).
-/

namespace EditorSettings

theorem Value.isUnset_withoutUnset_iff {v : Value} : v.withoutUnset.isUnset = false ↔ IsSet v.text := by
  by_cases word : v.isUnsetWord
  · rw [withoutUnset, if_pos word]
    exact iff_of_false (Bool.eq_false_iff.1 · rfl) fun set => set.word (of_decide_eq_true word)
  · rw [withoutUnset, if_neg word, isUnset, List.isEmpty_eq_false_iff]
    exact ⟨fun ne => ⟨ne, of_decide_eq_false (Bool.eq_false_iff.2 word)⟩, IsSet.ne⟩

theorem answers_map_iff {α β : Type} {refusal : UnknownValue} {x : Except ValueError α} {f : α → β} :
    Answers refusal (x.map f) ↔ Answers refusal x := by
  refine ⟨fun answers => ?_, fun answers => answers.map f⟩
  cases x with
  | ok a => exact .inl ⟨a, rfl⟩
  | error e =>
    obtain ⟨_, read⟩ | refused := answers
    · cases read
    · exact .inr (congrArg Except.error (Except.error.inj refused))

namespace Properties

variable {p : Properties} {kind : PropertyKind} {v : Value}

theorem meaning_of_unset (unset : v.withoutUnset.isUnset = true) : meaning v kind = .ok none := by
  rw [meaning, Value.toOption, if_pos unset]

theorem meaning_of_set (set : v.withoutUnset.isUnset = false) :
    meaning v kind = (kind.parse v.withoutUnset.text).map some := by
  rw [meaning, Value.toOption, if_neg (Bool.eq_false_iff.1 set)]

theorem property_of_unset (unset : (p.effective kind).isUnset = true) : p.property kind = .ok none :=
  meaning_of_unset unset

theorem property_of_set (set : (p.effective kind).isUnset = false) :
    p.property kind = (kind.parse (p.effective kind).text).map some := meaning_of_set set

/-! ## What reading a value comes to -/

theorem not_overlong_of_unset (unset : v.withoutUnset.isUnset = true) : ¬ kind.Overlong v.text := by
  rintro ⟨_, digits, whole, _⟩
  cases unset.symm.trans (Value.isUnset_withoutUnset_iff.2 whole.isSet)

theorem answers_meaning_iff : Answers (kind.refusal v.text) (meaning v kind) ↔ ¬ kind.Overlong v.text := by
  cases set : v.withoutUnset.isUnset with
  | true =>
    rw [meaning_of_unset set]
    exact iff_of_true (.inl ⟨none, rfl⟩) (not_overlong_of_unset set)
  | false =>
    rw [meaning_of_set set, Value.withoutUnset_of_set set, answers_map_iff]
    exact PropertyKind.answers_parse_iff

/-- Reading a text as a property finds exactly the values that the text spells.  It answers, with a value or
by refusing the text as no value of the property, unless the text is a number with too many digits.  Reading
a value that may be unset, and looking a property up, answer just as often. -/
theorem values_read_or_refused (kind : PropertyKind) :
    (∀ t v, kind.parse t = .ok v ↔ v.kind = kind ∧ Spells t v) ∧
    (∀ t, Answers (kind.refusal t) (kind.parse t) ↔ ¬ kind.Overlong t) ∧
    (∀ v : Value, Answers (kind.refusal v.text) (meaning v kind) ↔ ¬ kind.Overlong v.text) ∧
    ∀ p : Properties, Answers (kind.refusal (p.value kind.key).text) (p.property kind) ↔
      ¬ kind.Overlong (p.value kind.key).text :=
  ⟨fun _ _ => PropertyKind.parse_eq_ok_iff, fun _ => PropertyKind.answers_parse_iff,
    fun _ => answers_meaning_iff, fun _ => answers_meaning_iff⟩

def overlongWidth : Text := List.replicate (Decimal.digitLimit + 1) '1'

theorem overlongWidth_not_answered :
    PropertyKind.tabWidth.parse overlongWidth = .error (.tooManyDigits (.reading 4301)) ∧
      meaning (.ofText overlongWidth) .tabWidth = .error (.tooManyDigits (.reading 4301)) ∧
      (ofList [(PropertyKind.tabWidth.key, .ofText overlongWidth)]).property .tabWidth =
        .error (.tooManyDigits (.reading 4301)) := by
  have whole : IsWhole overlongWidth overlongWidth :=
    ⟨.inl rfl, by simp [overlongWidth], fun c member => List.eq_of_mem_replicate member ▸ rfl⟩
  have length : overlongWidth.length = 4301 := List.length_replicate
  have fails : PropertyKind.tabWidth.parse overlongWidth = .error (.tooManyDigits (.reading 4301)) := by
    have long : Decimal.digitLimit < overlongWidth.length := by rw [length]; decide
    have counts : PropertyKind.tabWidth.Counts := trivial
    rw [PropertyKind.parse_of_overlong counts whole long, length]
  have set : (Value.ofText overlongWidth).withoutUnset.isUnset = false :=
    Value.isUnset_withoutUnset_iff.2 whole.isSet
  have meant : meaning (.ofText overlongWidth) .tabWidth = .error (.tooManyDigits (.reading 4301)) := by
    rw [meaning_of_set set, Value.withoutUnset_of_set set]
    exact congrArg (Except.map some) fails
  exact ⟨fails, meant, meant⟩

/-! ## What is stored -/

/-- A value that was read can be written, what it is written as is read as the same value and never means
that nothing is set, and so the value is found where it is stored.  No other key changes. -/
theorem stored_value_read_again {t : Text} {value : Property} (read : kind.parse t = .ok value)
    (p : Properties) :
    kind.parse value.text = .ok value ∧ value.text ≠ [] ∧ Text.lower value.text ≠ "unset".toList ∧
      (∀ n, value.columns? = some n → (Decimal.write n).length ≤ Decimal.digitLimit) ∧
      (p.setProperty value).property kind = .ok (some value) ∧
      (∀ key, key ≠ kind.key → (p.setProperty value).find? key = p.find? key) ∧
      p.keys <+: (p.setProperty value).keys := by
  obtain ⟨rfl, spells⟩ := PropertyKind.parse_eq_ok_iff.1 read
  have again : value.kind.parse value.text = .ok value := PropertyKind.parse_of_spells spells.text
  have filled := spells.text.isSet
  have set : (Value.ofText value.text).withoutUnset.isUnset = false := Value.isUnset_withoutUnset_iff.2 filled
  have stored : (p.setProperty value).effective value.kind = .ofText value.text := by
    rw [setProperty, effective_set, if_pos rfl, Value.withoutUnset_of_set set]
  refine ⟨again, filled.ne, filled.word, fun n => spells.length_write_le, ?_, fun key other => ?_,
    keys_prefix_set p _ _⟩
  · have there : ((p.setProperty value).effective value.kind).isUnset = false := by
      rw [stored, ← Value.withoutUnset_of_set set, set]
    rw [property_of_set there, stored]
    exact congrArg (Except.map some) again
  · rw [setProperty, find?_set, if_neg other]

def unlimited : Properties :=
  ofList [("max_line_length".toList, .ofText "OFF".toList), ("charset".toList, .ofText "latin1".toList)]

theorem stored_value_read_again_unlimited :
    let limit : Property := .maxLineLength (.columns 80)
    PropertyKind.maxLineLength.parse "+0080".toList = .ok limit ∧ limit.text = "80".toList ∧
      (unlimited.setProperty limit).property .maxLineLength = .ok (some limit) ∧
      (unlimited.setProperty limit).find? "charset".toList = some (.ofText "latin1".toList) ∧
      unlimited.keys <+: (unlimited.setProperty limit).keys := by
  intro limit
  have read : PropertyKind.maxLineLength.parse "+0080".toList = .ok limit := by decide
  obtain ⟨_, _, _, _, found, others, order⟩ := stored_value_read_again read unlimited
  exact ⟨read, by decide, found, (others "charset".toList (by decide)).trans (by decide), order⟩

end Properties

end EditorSettings
