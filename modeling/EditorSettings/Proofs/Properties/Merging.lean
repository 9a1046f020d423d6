import EditorSettings.Proofs.Properties.Fallbacks

/-! # Merging is associative

A map that is copied onto another gives every key the value that it sets (`find?_applyTo`) and leaves the
entries of the other keys alone, where they are (`filter_applyTo`).  So three maps may be merged in either
way (`merging_is_associative`).

The order needs more: a key without a value has a place in its map, which it keeps when another map gives it a
value, but it is not copied.  Where all keys have values, merging is setting one list of pairs after another
(`applyTo_applyTo_of_set`).
-/

namespace EditorSettings.Properties

variable {p target : Properties} {key : Text}

/-! ## What is copied -/

theorem lookup_filter (test : Value → Bool) {entries : List (Text × Value)}
    (distinct : (entries.map Prod.fst).Nodup) (key : Text) :
    (entries.filter fun e => test e.2).lookup key = (entries.lookup key).filter test := by
  induction entries with
  | nil => rfl
  | cons e entries ih =>
    obtain ⟨new, distinct⟩ := List.nodup_cons.1 distinct
    rw [List.filter_cons]
    by_cases here : key = e.1
    · -- an entry that fails the test hides no other entry of its key
      subst here
      have later : (entries.filter fun e => test e.2).lookup e.1 = none := by
        rw [ih distinct, lookup_eq_none new, Option.filter_none]
      rw [List.lookup_cons_self, Option.filter_some]
      split
      · rw [List.lookup_cons_self]
      · exact later
    · rw [lookup_cons_of_ne here, ← ih distinct]
      split
      · rw [lookup_cons_of_ne here]
      · rfl

/-- The value that a map sets for a key, if it sets one. -/
def given? (p : Properties) (key : Text) : Option Value := (p.find? key).filter (!·.isUnset)

theorem lookup_entriesSet (p : Properties) (key : Text) : p.entriesSet.lookup key = p.given? key :=
  lookup_filter (!·.isUnset) p.distinct key

theorem given?_of_set (set : (p.value key).isUnset = false) : p.given? key = some (p.value key) := by
  rw [value] at set ⊢
  rw [given?]
  cases found : p.find? key with
  | none =>
    rw [found] at set
    cases set
  | some v =>
    rw [found, Option.getD_some] at set
    rw [Option.filter_some, set]
    rfl

theorem find?_applyTo (p target : Properties) (key : Text) :
    (p.applyTo target).find? key = (p.given? key).or (target.find? key) := by
  have distinct : (p.entriesSet.map Prod.fst).Nodup := nodup_filter p.distinct
  rw [applyTo, find?_setAll, lastValue_of_nodup distinct, lookup_entriesSet]

theorem given?_applyTo (p target : Properties) (key : Text) :
    (p.applyTo target).given? key = (p.given? key).or (target.given? key) := by
  rw [given?, find?_applyTo]
  cases here : p.given? key with
  | none => rfl
  | some v =>
    have set := (Option.filter_eq_some_iff.1 here).2
    rw [Option.some_or, Option.some_or, Option.filter_some, if_pos set]

/-! ## What stays -/

theorem filter_set {test : Text → Bool} (out : test key = false) (p : Properties) (v : Value) :
    (p.set key v).entries.filter (fun e => test e.1) = p.entries.filter fun e => test e.1 := by
  change (assign key v p.entries).filter _ = _
  induction p.entries with
  | nil => simp [assign, out]
  | cons e entries ih =>
    rw [assign]
    split
    next here => simp [here, out]
    · rw [List.filter_cons, List.filter_cons, ih]

theorem filter_setAll {test : Text → Bool} {pairs : List (Text × Value)}
    (out : ∀ e ∈ pairs, test e.1 = false) (p : Properties) :
    (p.setAll pairs).entries.filter (fun e => test e.1) = p.entries.filter fun e => test e.1 := by
  induction pairs using List.reverseRecOn with
  | nil => rfl
  | append_singleton pairs e ih =>
    rw [setAll_concat, filter_set (out e (by simp)), ih fun e member => out e (by simp [member])]

theorem find?_of_mem_entriesSet {e : Text × Value} (member : e ∈ p.entriesSet) :
    p.find? e.1 = some e.2 ∧ e.2.isUnset = false := by
  obtain ⟨there, set⟩ := List.mem_filter.1 member
  rw [Bool.not_eq_true'] at set
  exact ⟨find?_of_mem there, set⟩

theorem filter_applyTo (p target : Properties) :
    (p.applyTo target).entries.filter (fun e => (p.value e.1).isUnset) =
      target.entries.filter fun e => (p.value e.1).isUnset := by
  refine @filter_setAll (fun key => (p.value key).isUnset) _ (fun e member => ?_) target
  obtain ⟨found, set⟩ := find?_of_mem_entriesSet member
  rw [value, found, Option.getD_some, set]

theorem setAll_of_find? {pairs : List (Text × Value)} (found : ∀ e ∈ pairs, p.find? e.1 = some e.2) :
    p.setAll pairs = p := by
  induction pairs using List.reverseRecOn with
  | nil => rfl
  | append_singleton pairs e ih =>
    rw [setAll_concat, ih fun e member => found e (by simp [member]), set_of_find? (found e (by simp))]

theorem applyTo_applyTo (p target : Properties) : p.applyTo (p.applyTo target) = p.applyTo target := by
  refine setAll_of_find? fun e member => ?_
  obtain ⟨found, set⟩ := find?_of_mem_entriesSet member
  rw [find?_applyTo, given?, found, Option.filter_some, set]
  rfl

/-! ## Three maps -/

/-- What is in a map may be copied by itself before another map is merged into it, if all of it is set. -/
theorem applyTo_applyTo_of_set {a : Properties} (set : ∀ e ∈ a.entries, e.2.isUnset = false)
    (b target : Properties) : b.applyTo (a.applyTo target) = (b.applyTo a).applyTo target := by
  have whole : a.entriesSet = a.entries := List.filter_eq_self.2 fun e member => by rw [set e member]; rfl
  have pairs : b.applyTo a = ofList (a.entries ++ b.entriesSet) := by
    rw [ofList, setAll_append, ← ofList, ofList_entries]
    rfl
  have all : ∀ e ∈ a.entries ++ b.entriesSet, e.2.isUnset = false := by
    intro e member
    rcases List.mem_append.1 member with member | member
    · exact set e member
    · exact (find?_of_mem_entriesSet member).2
  calc
    b.applyTo (a.applyTo target) = (target.setAll a.entries).setAll b.entriesSet := by
      rw [applyTo, applyTo, whole]
    _ = target.setAll (a.entries ++ b.entriesSet) := (setAll_append target _ _).symm
    _ = (b.applyTo a).applyTo target := by rw [pairs, applyTo_ofList all]

/-- Copying `a` and then `b` onto a map gives every key the value that it has when `b` is copied onto `a` first,
and the keys the same order if all keys of `a` have values.  Copying a map once more changes nothing.  A map that
is copied replaces what it sets, and the entries of all other keys keep their values and their order. -/
theorem merging_is_associative (target a b : Properties) :
    (∀ key, (b.applyTo (a.applyTo target)).find? key = ((b.applyTo a).applyTo target).find? key) ∧
    ((∀ e ∈ a.entries, e.2.isUnset = false) →
      b.applyTo (a.applyTo target) = (b.applyTo a).applyTo target) ∧
    a.applyTo (a.applyTo target) = a.applyTo target ∧
    (∀ key, (a.value key).isUnset = false → (a.applyTo target).find? key = some (a.value key)) ∧
    (a.applyTo target).entries.filter (fun e => (a.value e.1).isUnset) =
      target.entries.filter fun e => (a.value e.1).isUnset := by
  refine ⟨fun key => ?_, fun set => applyTo_applyTo_of_set set b target, applyTo_applyTo a target,
    fun key set => ?_, filter_applyTo a target⟩
  · rw [find?_applyTo, find?_applyTo, find?_applyTo, given?_applyTo, Option.or_assoc]
  · rw [find?_applyTo, given?_of_set set, Option.some_or]

def outer : Properties :=
  ofList [(['a'], .ofText ['1']), (['b'], .ofText ['2']), (['c'], .ofText ['3'])]

def middle : Properties := ofList [(['d'], .ofText ['4']), (['b'], .ofText ['5'])]

def inner : Properties :=
  ofList [(['e'], .ofText ['6']), (['c'], .unset), (['d'], .ofText ['7']), (['a'], .ofText ['8'])]

theorem merging_is_associative_threeLayers :
    (∀ e ∈ middle.entries, e.2.isUnset = false) ∧ (inner.value ['d']).isUnset = false ∧
      (inner.applyTo middle).keys = [['d'], ['b'], ['e'], ['a']] ∧
      inner.applyTo (middle.applyTo outer) = (inner.applyTo middle).applyTo outer ∧
      (inner.applyTo middle).find? ['d'] = some (.ofText ['7']) ∧
      (inner.applyTo outer).entries.filter (fun e => (inner.value e.1).isUnset) =
        [(['b'], .ofText ['2']), (['c'], .ofText ['3'])] := by
  have set : ∀ e ∈ middle.entries, e.2.isUnset = false := by decide
  have there : (inner.value ['d']).isUnset = false := by decide
  obtain ⟨_, whole, _, _, _⟩ := merging_is_associative outer middle inner
  obtain ⟨_, _, _, found, _⟩ := merging_is_associative middle inner middle
  obtain ⟨_, _, _, _, kept⟩ := merging_is_associative outer inner middle
  exact ⟨set, there, by decide, whole set, (found ['d'] there).trans (by decide), kept.trans (by decide)⟩

-- a key without a value keeps the place for the value that it is given
example : let gap := ofList [(['x'], .unset), (['y'], .ofText ['1'])]
    let filled := ofList [(['x'], .ofText ['2'])]
    (filled.applyTo (gap.applyTo empty)).keys = [['y'], ['x']] ∧
      ((filled.applyTo gap).applyTo empty).keys = [['x'], ['y']] := by
  decide

end EditorSettings.Properties
