import EditorSettings.Proofs.Properties.LastWins

/-! # The fallbacks settle

The size of a step and the width of a tab stand in for each other, and what one fallback writes another one
reads.  Still one pass over the properties is enough: it leaves them `Settled`, and then there is nothing to
fill in (`useFallbacks_of_settled`).  What it fills in are gaps: `Filled` says of which keys the values may
have changed, and it holds of any number of steps if it holds of each.
-/

namespace EditorSettings

@[simp] theorem Value.withoutUnset_withoutUnset (v : Value) :
    v.withoutUnset.withoutUnset = v.withoutUnset := by
  rw [withoutUnset, isUnsetWord_withoutUnset]
  rfl

theorem Value.withoutUnset_of_set {v : Value} (set : v.withoutUnset.isUnset = false) : v.withoutUnset = v := by
  rw [withoutUnset] at set ⊢
  split at set
  · cases set
  next word => exact if_neg word

namespace Properties

variable {legacy : Bool} {p : Properties} {kind k : PropertyKind}

/-- Nothing is left for the fallbacks to fill in. -/
structure Settled (legacy : Bool) (p : Properties) : Prop where
  style : legacy = false → (p.effective .indentSize).isUnset = true →
    Text.lower (p.effective .indentStyle).text ≠ IndentStyle.tabs.word
  size : Text.lower (p.effective .indentSize).text = IndentSize.tab.text →
    (p.effective .tabWidth).isUnset = false → p.effective .indentSize = p.effective .tabWidth
  width : Text.lower (p.effective .indentSize).text ≠ IndentSize.tab.text →
    (p.effective .indentSize).isUnset = false → (p.effective .tabWidth).isUnset = false

/-! ## Effective values -/

theorem effective_set (p : Properties) (kind k : PropertyKind) (v : Value) :
    (p.set kind.key v).effective k = if k = kind then v.withoutUnset else p.effective k := by
  rw [effective, value, find?_set]
  by_cases same : k = kind
  · simp [same]
  · have other : k.key ≠ kind.key := fun h => same (PropertyKind.key_injective h)
    simp [same, other, effective, value]

@[simp] theorem withoutUnset_effective (p : Properties) (kind : PropertyKind) :
    (p.effective kind).withoutUnset = p.effective kind := by
  simp [effective]

theorem find?_of_effective (set : (p.effective kind).isUnset = false) :
    p.find? kind.key = some (p.effective kind) := by
  rw [effective, value] at set ⊢
  cases found : p.find? kind.key with
  | none =>
    rw [found] at set
    exact absurd set (by decide)
  | some v =>
    rw [found, Option.getD_some] at set
    rw [Option.getD_some, Value.withoutUnset_of_set set]

theorem set_of_find? {key : Text} {v : Value} (found : p.find? key = some v) : p.set key v = p := by
  apply ext_find?
  · have there : (p.find? key).isSome := by rw [found]; rfl
    exact keys_set_of_mem (isSome_find?_iff.1 there) v
  · intro k
    rw [find?_set]
    split
    next same => rw [same, found]
    · rfl

/-! ## One pass -/

theorem style_impliedSize (p : Properties) (unset : (p.impliedSize.effective .indentSize).isUnset = true) :
    Text.lower (p.impliedSize.effective .indentStyle).text ≠ IndentStyle.tabs.word := by
  rw [impliedSize] at unset ⊢
  split at unset
  · rw [effective_set, if_pos rfl] at unset
    exact absurd unset (by decide)
  next kept =>
    rw [if_neg kept]
    simpa [unset] using kept

theorem settled_sharedWidth (style : legacy = false → (p.effective .indentSize).isUnset = true →
    Text.lower (p.effective .indentStyle).text ≠ IndentStyle.tabs.word) :
    p.sharedWidth.Settled legacy := by
  rw [sharedWidth]
  split
  next tab =>
    split
    next unset => exact ⟨style, fun _ set => by simp [unset] at set, fun other => absurd tab other⟩
    next set =>
      -- the width is the size as well
      refine ⟨fun _ unset => ?_, fun _ _ => ?_, fun _ _ => ?_⟩
      · simp [effective_set, set] at unset
      · simp [effective_set]
      · simp [effective_set, set]
  next other =>
    split
    next alone =>
      -- the size is the width as well
      simp only [Bool.and_eq_true, Bool.not_eq_true'] at alone
      refine ⟨fun modern unset => ?_, fun tab _ => ?_, fun _ _ => ?_⟩
      · simp [effective_set, alone] at unset
      · simp [effective_set, other] at tab
      · simp [effective_set, alone]
    next both =>
      refine ⟨style, fun tab _ => absurd tab other, fun _ set => ?_⟩
      simpa [set] using both

theorem settled_useFallbacks (legacy : Bool) (p : Properties) : (p.useFallbacks legacy).Settled legacy := by
  rw [useFallbacks]
  apply settled_sharedWidth
  rintro rfl unset
  exact p.style_impliedSize unset

theorem useFallbacks_of_settled (settled : p.Settled legacy) : p.useFallbacks legacy = p := by
  have kept : (if legacy then p else p.impliedSize) = p := by
    split
    · rfl
    next modern =>
      refine if_neg fun implied => ?_
      simp only [Bool.and_eq_true, decide_eq_true_eq] at implied
      exact settled.style (Bool.eq_false_iff.2 modern) implied.1 implied.2
  rw [useFallbacks, kept, sharedWidth]
  split
  next tab =>
    split
    · rfl
    next set =>
      have same := settled.size tab (Bool.eq_false_iff.2 set)
      have found := find?_of_effective (same ▸ Bool.eq_false_iff.2 set)
      rw [← same, set_of_find? found]
  next other =>
    refine if_neg fun alone => ?_
    simp only [Bool.and_eq_true, Bool.not_eq_true'] at alone
    simp [settled.width other alone.1] at alone

/-! ## What a pass may change -/

/-- Keys may have been added at the end.  Only a width that is not set has changed, and only a size that is
not set or is the width of a tab. -/
structure Filled (p q : Properties) : Prop where
  keys : p.keys <+: q.keys
  others : ∀ key, key ≠ PropertyKind.indentSize.key → key ≠ PropertyKind.tabWidth.key →
    q.find? key = p.find? key
  size : (p.effective .indentSize).isUnset = false →
    Text.lower (p.effective .indentSize).text ≠ IndentSize.tab.text →
    q.find? PropertyKind.indentSize.key = p.find? PropertyKind.indentSize.key
  width : (p.effective .tabWidth).isUnset = false →
    q.find? PropertyKind.tabWidth.key = p.find? PropertyKind.tabWidth.key

theorem Filled.refl (p : Properties) : p.Filled p :=
  ⟨List.prefix_rfl, fun _ _ _ => rfl, fun _ _ => rfl, fun _ => rfl⟩

theorem effective_of_find? {q : Properties} (same : q.find? kind.key = p.find? kind.key) :
    q.effective kind = p.effective kind := by
  rw [effective, effective, value, value, same]

theorem Filled.trans {q r : Properties} (first : p.Filled q) (second : q.Filled r) : p.Filled r where
  keys := first.keys.trans second.keys
  others key size width := (second.others key size width).trans (first.others key size width)
  size set other := by
    -- what was closed before the first step is closed before the second
    have kept := first.size set other
    have same := effective_of_find? kept
    exact (second.size (same ▸ set) (same ▸ other)).trans kept
  width set := by
    have kept := first.width set
    have same := effective_of_find? kept
    exact (second.width (same ▸ set)).trans kept

theorem keys_prefix_set (p : Properties) (key : Text) (v : Value) : p.keys <+: (p.set key v).keys := by
  by_cases there : key ∈ p.keys
  · exact (keys_set_of_mem there v).symm ▸ List.prefix_rfl
  · rw [keys_set_of_not_mem there]
    exact List.prefix_append _ _

theorem filled_set_size (gap : (p.effective .indentSize).isUnset = true ∨
      Text.lower (p.effective .indentSize).text = IndentSize.tab.text) (v : Value) :
    p.Filled (p.set PropertyKind.indentSize.key v) where
  keys := keys_prefix_set p _ v
  others key size _ := by rw [find?_set, if_neg size]
  size set other := by
    rcases gap with unset | tab
    · cases unset.symm.trans set
    · exact absurd tab other
  width _ := by rw [find?_set, if_neg (by decide)]

theorem filled_set_width (gap : (p.effective .tabWidth).isUnset = true) (v : Value) :
    p.Filled (p.set PropertyKind.tabWidth.key v) where
  keys := keys_prefix_set p _ v
  others key _ width := by rw [find?_set, if_neg width]
  size _ _ := by rw [find?_set, if_neg (by decide)]
  width set := by cases gap.symm.trans set

theorem filled_impliedSize (p : Properties) : p.Filled p.impliedSize := by
  rw [impliedSize]
  split
  next implied =>
    rw [Bool.and_eq_true] at implied
    exact filled_set_size (.inl implied.1) _
  · exact .refl p

theorem filled_sharedWidth (p : Properties) : p.Filled p.sharedWidth := by
  rw [sharedWidth]
  split
  next tab =>
    split
    · exact .refl p
    · exact filled_set_size (.inr tab) _
  · split
    next alone =>
      rw [Bool.and_eq_true] at alone
      exact filled_set_width alone.2 _
    · exact .refl p

theorem filled_useFallbacks (legacy : Bool) (p : Properties) : p.Filled (p.useFallbacks legacy) := by
  cases legacy with
  | true => exact filled_sharedWidth p
  | false => exact (filled_impliedSize p).trans (filled_sharedWidth p.impliedSize)

/-! ## The legacy rules -/

theorem Settled.ofModern (settled : p.Settled false) : p.Settled legacy :=
  ⟨fun _ => settled.style rfl, settled.size, settled.width⟩

/-- Without a size, there is nothing for the legacy rules to do. -/
theorem useFallbacks_true_of_unset (unset : (p.effective .indentSize).isUnset = true) :
    p.useFallbacks true = p := by
  have empty : (p.effective .indentSize).text = [] := List.isEmpty_iff.1 unset
  have plain : Text.lower (p.effective .indentSize).text ≠ IndentSize.tab.text := by
    rw [empty]
    decide
  refine (if_neg plain).trans (if_neg ?_)
  simp [unset]

/-- With a size, the style does not matter. -/
theorem useFallbacks_of_set (set : (p.effective .indentSize).isUnset = false) (legacy : Bool) :
    p.useFallbacks legacy = p.sharedWidth := by
  have kept : p.impliedSize = p := by
    rw [impliedSize, set]
    rfl
  rw [useFallbacks, kept, ite_self]

theorem effective_of_word {v : Value} (found : p.find? kind.key = some v) (word : v.isUnsetWord = false) :
    p.effective kind = v := by
  rw [effective, value, found, Option.getD_some, Value.withoutUnset, word]
  rfl

/-- The fallbacks change no key but two, and of these only what is missing, empty or `unset`, or a size as
wide as a tab.  Keys stay where they are.  A second pass changes nothing, and of a legacy pass and another one
in any order only the other one counts. -/
theorem fallbacks_fill_gaps (p : Properties) :
    (∀ legacy : Bool,
      (∀ key, key ≠ PropertyKind.indentSize.key → key ≠ PropertyKind.tabWidth.key →
        (p.useFallbacks legacy).find? key = p.find? key) ∧
      p.keys <+: (p.useFallbacks legacy).keys ∧
      (∀ v, p.find? PropertyKind.tabWidth.key = some v → v.isUnset = false → v.isUnsetWord = false →
        (p.useFallbacks legacy).find? PropertyKind.tabWidth.key = some v) ∧
      (∀ v, p.find? PropertyKind.indentSize.key = some v → v.isUnset = false → v.isUnsetWord = false →
        Text.lower v.text ≠ IndentSize.tab.text →
          (p.useFallbacks legacy).find? PropertyKind.indentSize.key = some v) ∧
      (p.useFallbacks legacy).useFallbacks legacy = p.useFallbacks legacy) ∧
    (p.useFallbacks true).useFallbacks false = p.useFallbacks false ∧
    (p.useFallbacks false).useFallbacks true = p.useFallbacks false := by
  have settled := settled_useFallbacks false p
  refine ⟨fun legacy => ?_, ?_, useFallbacks_of_settled settled.ofModern⟩
  · have filled := filled_useFallbacks legacy p
    refine ⟨filled.others, filled.keys, fun v found set word => ?_, fun v found set word other => ?_,
      useFallbacks_of_settled (settled_useFallbacks legacy p)⟩
    · have same := effective_of_word found word
      rw [filled.width (same ▸ set), found]
    · have same := effective_of_word found word
      rw [filled.size (same ▸ set) (same ▸ other), found]
  · cases set : (p.effective .indentSize).isUnset with
    | true => rw [useFallbacks_true_of_unset set]
    | false =>
      rw [useFallbacks_of_set set true, ← useFallbacks_of_set set false, useFallbacks_of_settled settled]

def wideSteps : Properties :=
  ofList [("indent_style".toList, .ofText "Tab".toList), ("tab_width".toList, .ofText ['4']),
    ("charset".toList, .ofText "latin1".toList), ("indent_size".toList, .ofText ['8'])]

theorem fallbacks_fill_gaps_wideSteps :
    "charset".toList ≠ PropertyKind.indentSize.key ∧ "charset".toList ≠ PropertyKind.tabWidth.key ∧
      wideSteps.find? PropertyKind.tabWidth.key = some (.ofText ['4']) ∧
      wideSteps.find? PropertyKind.indentSize.key = some (.ofText ['8']) ∧
      (wideSteps.useFallbacks false).find? "charset".toList = some (.ofText "latin1".toList) ∧
      (wideSteps.useFallbacks false).find? PropertyKind.tabWidth.key = some (.ofText ['4']) ∧
      (wideSteps.useFallbacks false).find? PropertyKind.indentSize.key = some (.ofText ['8']) ∧
      (wideSteps.useFallbacks false).useFallbacks true = wideSteps.useFallbacks false := by
  obtain ⟨one, _, last⟩ := fallbacks_fill_gaps wideSteps
  obtain ⟨others, _, width, size, _⟩ := one false
  have charset : "charset".toList ≠ PropertyKind.indentSize.key ∧
      "charset".toList ≠ PropertyKind.tabWidth.key := by decide
  have four : wideSteps.find? PropertyKind.tabWidth.key = some (.ofText ['4']) := by decide
  have eight : wideSteps.find? PropertyKind.indentSize.key = some (.ofText ['8']) := by decide
  exact ⟨charset.1, charset.2, four, eight, others _ charset.1 charset.2,
    width _ four (by decide) (by decide), size _ eight (by decide) (by decide) (by decide), last⟩

end Properties

end EditorSettings
