import EditorSettings.Proofs.Properties.Meanings

/-! # Widths made of sizes

Where no tab width is set, the fallbacks make one of the indentation size, whatever that is, unless it is as
wide as a tab (`widthFrom_useFallbacks`).  A size that is a number gives the same number as the width, and a
size that cannot be read gives a width that cannot be read (`width_made_of_size`).
-/

namespace EditorSettings.Properties

variable {legacy : Bool} {p q : Properties} {kind : PropertyKind}

theorem property_of_find? (same : q.find? kind.key = p.find? kind.key) : q.property kind = p.property kind := by
  rw [property, property, value, value, same]

/-! ## Sizes and widths -/

/-- A text that is not as wide as a tab is the same number as a size and as a width, or none of both. -/
theorem exists_parse_size_width {t : Text} (other : Text.lower t ≠ IndentSize.tab.text) :
    ∃ number : Except ValueError Nat,
      PropertyKind.indentSize.parse t = number.map (fun n => .indentSize (.columns n)) ∧
      PropertyKind.tabWidth.parse t = number.map .tabWidth := by
  refine ⟨PropertyKind.parseWhole t, ?_, rfl⟩
  rw [PropertyKind.parse, PropertyKind.parseIndentSize, if_neg other]
  cases PropertyKind.parseWhole t <;> rfl

/-- What becomes of a width that is not set: nothing, if the size is not set or as wide as a tab, and
otherwise the size, which then is the same number as both or none of both. -/
inductive WidthFrom (p q : Properties) : Prop
  | kept {size : Option Property} (read : p.property .indentSize = .ok size)
      (plain : size = none ∨ size = some (.indentSize .tab))
      (same : q.find? PropertyKind.tabWidth.key = p.find? PropertyKind.tabWidth.key)
  | made (number : Except ValueError Nat)
      (size : p.property .indentSize = number.map fun n => some (.indentSize (.columns n)))
      (width : q.property .tabWidth = number.map fun n => some (.tabWidth n))
      (moved : q.find? PropertyKind.tabWidth.key = p.find? PropertyKind.indentSize.key)
      (new : q.find? PropertyKind.tabWidth.key ≠ p.find? PropertyKind.tabWidth.key)

theorem sharedWidth_of_tab (unset : (p.effective .tabWidth).isUnset = true)
    (tab : Text.lower (p.effective .indentSize).text = IndentSize.tab.text) :
    p.sharedWidth = p := by
  rw [sharedWidth, if_pos tab, if_pos unset]

theorem sharedWidth_of_size (unset : (p.effective .tabWidth).isUnset = true)
    (set : (p.effective .indentSize).isUnset = false)
    (other : Text.lower (p.effective .indentSize).text ≠ IndentSize.tab.text) :
    p.sharedWidth = p.set PropertyKind.tabWidth.key (p.effective .indentSize) := by
  rw [sharedWidth, if_neg other]
  exact if_pos (by simp [set, unset])

/-- A size that the style implies is as wide as a tab and gives no width. -/
theorem find?_width_of_unset_size (unset : (p.effective .tabWidth).isUnset = true)
    (none : (p.effective .indentSize).isUnset = true) :
    (p.useFallbacks legacy).find? PropertyKind.tabWidth.key = p.find? PropertyKind.tabWidth.key := by
  have idle : p.sharedWidth = p := useFallbacks_true_of_unset none
  cases legacy with
  | true => exact congrArg (find? · _) idle
  | false =>
    change p.impliedSize.sharedWidth.find? _ = _
    rw [impliedSize]
    split
    · rw [sharedWidth_of_tab, find?_set, if_neg (by decide)]
      · rwa [effective_set, if_neg (by decide)]
      · rw [effective_set, if_pos rfl]
        decide
    · rw [idle]

theorem widthFrom_useFallbacks (unset : (p.effective .tabWidth).isUnset = true) (legacy : Bool) :
    WidthFrom p (p.useFallbacks legacy) := by
  cases set : (p.effective .indentSize).isUnset with
  | true => exact .kept (property_of_unset set) (.inl rfl) (find?_width_of_unset_size unset set)
  | false =>
    rw [useFallbacks_of_set set legacy]
    by_cases tab : Text.lower (p.effective .indentSize).text = IndentSize.tab.text
    · rw [sharedWidth_of_tab unset tab]
      have read : PropertyKind.indentSize.parse (p.effective .indentSize).text = .ok (.indentSize .tab) :=
        PropertyKind.parse_of_spells (v := .indentSize .tab) (.word ⟨rfl, nofun⟩ tab)
      refine .kept ?_ (.inr rfl) rfl
      rw [property_of_set set, read]
      rfl
    · rw [sharedWidth_of_size unset set tab]
      obtain ⟨number, size, width⟩ := exists_parse_size_width tab
      have found : (p.set PropertyKind.tabWidth.key (p.effective .indentSize)).find? PropertyKind.tabWidth.key =
          some (p.effective .indentSize) := by rw [find?_set, if_pos rfl]
      have here : (p.set PropertyKind.tabWidth.key (p.effective .indentSize)).effective .tabWidth =
          p.effective .indentSize := by rw [effective_set, if_pos rfl, withoutUnset_effective]
      refine .made number ?_ ?_ (found.trans (find?_of_effective set).symm) fun same => ?_
      · rw [property_of_set set, size]
        cases number <;> rfl
      · rw [property_of_set (by rw [here, set]), here, width]
        cases number <;> rfl
      · -- the width would have been set before
        have before : p.effective .indentSize = p.effective .tabWidth :=
          here.symm.trans (effective_of_find? same)
        cases set.symm.trans (before ▸ unset)

/-- Without a width, the fallbacks make one exactly of a size that is a number or cannot be read.  It is the
value of the size as it is, so the width is a number exactly if the size is one.  In all, the fallbacks make
the width unreadable exactly where it was not set and the size was unreadable. -/
theorem width_made_of_size (legacy : Bool) (p : Properties) :
    ((p.effective .tabWidth).isUnset = true →
      ((p.useFallbacks legacy).find? PropertyKind.tabWidth.key ≠ p.find? PropertyKind.tabWidth.key ↔
        (∃ n, p.property .indentSize = .ok (some (.indentSize (.columns n)))) ∨
          ∃ e, p.property .indentSize = .error e) ∧
      ((p.useFallbacks legacy).find? PropertyKind.tabWidth.key ≠ p.find? PropertyKind.tabWidth.key →
        (p.useFallbacks legacy).find? PropertyKind.tabWidth.key = p.find? PropertyKind.indentSize.key) ∧
      ∀ n, (p.useFallbacks legacy).property .tabWidth = .ok (some (.tabWidth n)) ↔
        p.property .indentSize = .ok (some (.indentSize (.columns n)))) ∧
    ∀ e, (p.useFallbacks legacy).property .tabWidth = .error e ↔ p.property .tabWidth = .error e ∨
      (p.effective .tabWidth).isUnset = true ∧ p.property .indentSize = .error e := by
  cases unset : (p.effective .tabWidth).isUnset with
  | false =>
    have kept := property_of_find? ((filled_useFallbacks legacy p).width unset)
    rw [kept]
    exact ⟨nofun, fun e => by simp⟩
  | true =>
    rw [property_of_unset unset]
    cases widthFrom_useFallbacks unset legacy with
    | @kept size read plain same =>
      have number (n : Nat) : size ≠ some (.indentSize (.columns n)) := by
        rcases plain with rfl | rfl <;> nofun
      rw [property_of_find? same, property_of_unset unset, read]
      exact ⟨fun _ => by simp [same, number], fun e => by simp⟩
    | made number size width moved new =>
      rw [size, width]
      have both (m : Nat) : (number.map fun n => some (Property.tabWidth n)) = .ok (some (.tabWidth m)) ↔
          (number.map fun n => some (Property.indentSize (.columns n))) =
            .ok (some (.indentSize (.columns m))) := by
        simp [map_eq_ok_iff]
      cases number with
      | ok n =>
        exact ⟨fun _ => ⟨iff_of_true new (.inl ⟨n, rfl⟩), fun _ => moved, both⟩, fun e => by simp [Except.map]⟩
      | error e =>
        exact ⟨fun _ => ⟨iff_of_true new (.inr ⟨e, rfl⟩), fun _ => moved, both⟩, fun e => by simp [Except.map]⟩

def unsetWidth : Properties :=
  ofList [("tab_width".toList, .ofText "UNSET".toList), ("indent_size".toList, .ofText "+08".toList)]

theorem width_made_of_size_unsetWidth :
    (unsetWidth.effective .tabWidth).isUnset = true ∧
      unsetWidth.property .indentSize = .ok (some (.indentSize (.columns 8))) ∧
      (unsetWidth.useFallbacks true).find? PropertyKind.tabWidth.key = some (.ofText "+08".toList) ∧
      (unsetWidth.useFallbacks true).property .tabWidth = .ok (some (.tabWidth 8)) := by
  have unset : (unsetWidth.effective .tabWidth).isUnset = true := by decide
  have size : unsetWidth.property .indentSize = .ok (some (.indentSize (.columns 8))) := by decide
  have here : unsetWidth.find? PropertyKind.indentSize.key = some (.ofText "+08".toList) := by decide
  obtain ⟨made, moved, number⟩ := (width_made_of_size true unsetWidth).1 unset
  have new := made.2 (.inl ⟨8, size⟩)
  exact ⟨unset, size, (moved new).trans here, (number 8).2 size⟩

def wideSize : Properties := ofList [("indent_size".toList, .ofText "wide".toList)]

/-- The size becomes the width, and then the width cannot be read. -/
theorem wideSize_gives_width :
    (wideSize.effective .tabWidth).isUnset = true ∧ wideSize.property .tabWidth = .ok none ∧
      PropertyKind.indentSize.parse "wide".toList = .error (.unknown (.notWholeNumber "wide".toList)) ∧
      ∀ legacy,
        (wideSize.useFallbacks legacy).find? PropertyKind.tabWidth.key = some (.ofText "wide".toList) ∧
        (wideSize.useFallbacks legacy).property .tabWidth =
          .error (.unknown (.notWholeNumber "wide".toList)) := by
  decide

end EditorSettings.Properties
