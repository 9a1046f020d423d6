import EditorSettings.Cli.Report
import EditorSettings.Proofs.Properties.Fallbacks
import EditorSettings.Proofs.Text.Lowercase

/-! # Properties that are shown

A listing has a line for each property that is set, in the order of the map.  `Properties.clean` is the map of
what a listing shows.  Its own listing is the same (`listing_clean`), and if the fallbacks have nothing to
fill in before, they have nothing to fill in after (`Settled.clean`).
-/

namespace EditorSettings

/-! ## Values -/

namespace Value

/-- What is shown of a value, if anything is. -/
def shown (key : Text) (v : Value) : Option Value :=
  if v.isUnset || v.isUnsetWord then none
  else some (.ofText (if isStandardKey key then Text.lower v.text else v.text))

variable {key : Text} {v w : Value}

@[simp] theorem text_ofText (t : Text) : (ofText t).text = t := rfl

@[simp] theorem isUnset_lower (v : Value) : (ofText (Text.lower v.text)).isUnset = v.isUnset := by
  obtain ⟨t, source⟩ := v
  cases t with
  | nil => rfl
  | cons c rest => simp [isUnset]

@[simp] theorem isUnsetWord_lower (v : Value) :
    (ofText (Text.lower v.text)).isUnsetWord = v.isUnsetWord := by
  rw [isUnsetWord, isUnsetWord, text_ofText, Text.lower_lower]

theorem shown_eq_some_iff : v.shown key = some w ↔ (v.isUnset = false ∧ v.isUnsetWord = false) ∧
    .ofText (if isStandardKey key then Text.lower v.text else v.text) = w := by
  rw [shown, ← Bool.or_eq_false_iff]
  cases v.isUnset || v.isUnsetWord <;> simp

theorem isUnset_of_shown_eq_none (h : v.shown key = none) : v.withoutUnset.isUnset = true := by
  rw [shown] at h
  split at h
  next dropped =>
    rw [withoutUnset]
    split
    · rfl
    next word => simpa [word] using dropped
  · cases h

/-- What is shown is shown again. -/
theorem shown_of_shown (h : v.shown key = some w) : w.shown key = some w := by
  obtain ⟨set, rfl⟩ := shown_eq_some_iff.1 h
  rw [shown_eq_some_iff]
  split
  · exact ⟨by rwa [isUnset_lower, isUnsetWord_lower], by rw [text_ofText, Text.lower_lower]⟩
  · exact ⟨set, rfl⟩

end Value

namespace Properties

variable {p : Properties} {legacy : Bool} {e : Text × Value}

/-! ## Listings -/

def shownEntry (e : Text × Value) : Option (Text × Value) := (e.2.shown e.1).map (e.1, ·)

def listingLine (e : Text × Value) : Text := e.1 ++ ['='] ++ e.2.text

theorem keys_shown (entries : List (Text × Value)) :
    ((entries.filterMap shownEntry).map Prod.fst).Sublist (entries.map Prod.fst) := by
  induction entries with
  | nil => exact .slnil
  | cons e entries ih =>
    cases shown : e.2.shown e.1 with
    | none => simpa [shownEntry, shown] using ih.cons e.1
    | some w => simpa [shownEntry, shown] using ih

def clean (p : Properties) : Properties where
  entries := p.entries.filterMap shownEntry
  distinct := p.distinct.sublist (keys_shown p.entries)

theorem listing_eq (p : Properties) : p.listing = p.clean.entries.map listingLine := by
  rw [listing, entriesSet, clean, List.filterMap_filter, List.map_filterMap]
  congr 1
  funext e
  rw [Value.listing, shownEntry, Value.shown]
  cases e.2.isUnset <;> cases e.2.isUnsetWord <;> rfl

theorem shown_of_mem_clean (h : e ∈ p.clean.entries) :
    ∃ v, (e.1, v) ∈ p.entries ∧ v.shown e.1 = some e.2 := by
  obtain ⟨⟨key, v⟩, there, same⟩ := List.mem_filterMap.1 h
  obtain ⟨w, shown, rfl⟩ := Option.map_eq_some_iff.1 same
  exact ⟨v, there, shown⟩

theorem clean_clean (p : Properties) : p.clean.clean = p.clean := by
  apply ext_entries
  refine (List.filterMap_congr fun e member => ?_).trans List.filterMap_some
  obtain ⟨v, _, shown⟩ := shown_of_mem_clean member
  simp [shownEntry, Value.shown_of_shown shown]

theorem listing_clean (p : Properties) : p.clean.listing = p.listing := by
  rw [listing_eq, listing_eq, clean_clean]

/-! ## Looking up -/

theorem lookup_shown {entries : List (Text × Value)} (distinct : (entries.map Prod.fst).Nodup) (key : Text) :
    (entries.filterMap shownEntry).lookup key = (entries.lookup key).bind (Value.shown key) := by
  induction entries with
  | nil => rfl
  | cons e entries ih =>
    obtain ⟨k, v⟩ := e
    obtain ⟨new, distinct⟩ := List.nodup_cons.1 distinct
    by_cases here : k = key
    · subst here
      rw [List.lookup_cons_self]
      cases shown : v.shown k with
      | none => simp [shownEntry, shown, ih distinct, lookup_eq_none new]
      | some w => simp [shownEntry, shown]
    · have other : key ≠ k := Ne.symm here
      rw [lookup_cons_of_ne other]
      cases shown : v.shown k <;> simp [shownEntry, shown, lookup_cons_of_ne other, ih distinct]

theorem effective_clean (p : Properties) {kind : PropertyKind} (standard : isStandardKey kind.key) :
    p.clean.effective kind = .ofText (Text.lower (p.effective kind).text) := by
  have found : p.clean.find? kind.key = (p.find? kind.key).bind (Value.shown kind.key) :=
    lookup_shown p.distinct kind.key
  rw [effective, effective, value, value, found]
  cases p.find? kind.key with
  | none => rfl
  | some v =>
    cases shown : v.shown kind.key with
    | none =>
      have empty : v.withoutUnset.text = [] := by
        simpa [Value.isUnset] using Value.isUnset_of_shown_eq_none shown
      simp [empty, shown]
      rfl
    | some w =>
      obtain ⟨⟨_, word⟩, rfl⟩ := Value.shown_eq_some_iff.1 shown
      simp [shown, standard, Value.withoutUnset, word]

/-- The fallbacks see the same in what is shown. -/
theorem Settled.clean (settled : p.Settled legacy) : p.clean.Settled legacy := by
  have size : p.clean.effective .indentSize = _ := effective_clean p rfl
  have width : p.clean.effective .tabWidth = _ := effective_clean p rfl
  have style : p.clean.effective .indentStyle = _ := effective_clean p rfl
  constructor <;> simp only [size, width, style, Value.isUnset_lower, Value.text_ofText, Text.lower_lower]
  · exact settled.style
  · intro tab set
    rw [settled.size tab set]
  · exact settled.width

end Properties

end EditorSettings
