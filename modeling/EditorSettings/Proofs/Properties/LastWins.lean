import Mathlib.Data.List.Induction
import EditorSettings.Properties
import EditorSettings.Proofs.Repetition

/-! # The last pair wins

A map made of pairs has the keys in the order in which they occur first, each with the value of the
pair in which it occurs last (`lastWins_ofList`).  What a map copies onto another is no more than its
pairs, so pairs may be collected in a map first (`applyTo_ofList`).
-/

namespace EditorSettings.Properties

def keys (p : Properties) : List Text := p.entries.map Prod.fst

/-- The value of the last pair with a key. -/
def lastValue (key : Text) (pairs : List (Text × Value)) : Option Value := pairs.reverse.lookup key

/-- The keys are those of the pairs, in the order in which they occur first, and each has the value of
the pair in which it occurs last. -/
structure LastWins (p : Properties) (pairs : List (Text × Value)) : Prop where
  keys : p.keys = (pairs.map Prod.fst).eraseDups
  find? : ∀ key, p.find? key = lastValue key pairs

/-! ## Looking up -/

theorem lookup_eq_none {key : Text} {pairs : List (Text × Value)} (h : key ∉ pairs.map Prod.fst) :
    pairs.lookup key = none :=
  List.lookup_eq_none_iff.2 fun _ member => bne_iff_ne.2 fun same => h (same ▸ List.mem_map_of_mem member)

theorem mem_of_find? {p : Properties} {key : Text} {v : Value} (h : p.find? key = some v) :
    (key, v) ∈ p.entries := by
  obtain ⟨before, after, whole, _⟩ := List.lookup_eq_some_iff.1 h
  rw [whole]
  exact List.mem_append_cons_self

theorem find?_of_mem {p : Properties} {e : Text × Value} (member : e ∈ p.entries) :
    p.find? e.1 = some e.2 := by
  obtain ⟨before, after, whole⟩ := List.append_of_mem member
  have distinct := p.distinct
  rw [whole, List.map_append, List.map_cons, List.nodup_append] at distinct
  refine List.lookup_eq_some_iff.2 ⟨before, after, whole, fun d earlier => bne_iff_ne.2 ?_⟩
  exact (distinct.2.2 d.1 (List.mem_map_of_mem earlier) e.1 List.mem_cons_self).symm

theorem isSome_find?_iff {p : Properties} {key : Text} : (p.find? key).isSome ↔ key ∈ p.keys := by
  rw [find?, List.lookup_isSome_iff, keys, List.mem_map]
  simp only [beq_iff_eq, eq_comm (a := key)]

theorem lastValue_concat (key : Text) (pairs : List (Text × Value)) (e : Text × Value) :
    lastValue key (pairs ++ [e]) = if e.1 = key then some e.2 else lastValue key pairs := by
  rw [lastValue, List.reverse_append, List.reverse_singleton, List.singleton_append]
  split
  next here => rw [← here, List.lookup_cons_self]
  next other => rw [lookup_cons_of_ne (Ne.symm other), lastValue]

theorem lastValue_of_nodup {pairs : List (Text × Value)} (h : (pairs.map Prod.fst).Nodup)
    (key : Text) : lastValue key pairs = pairs.lookup key := by
  induction pairs with
  | nil => rfl
  | cons e pairs ih =>
    obtain ⟨new, distinct⟩ := List.nodup_cons.1 h
    have split : lastValue key (e :: pairs) = (lastValue key pairs).or ([e].lookup key) := by
      rw [lastValue, List.reverse_cons, List.lookup_append, lastValue]
    rw [split, ih distinct]
    by_cases here : key = e.1
    · subst here
      rw [lookup_eq_none new, Option.none_or, List.lookup_cons_self, List.lookup_cons_self]
    · rw [lookup_cons_of_ne here, lookup_cons_of_ne here, List.lookup_nil, Option.or_none]

/-! ## Maps by their keys and values -/

theorem nodup_keys (p : Properties) : p.keys.Nodup := p.distinct

theorem entries_eq (p : Properties) :
    p.entries = p.keys.filterMap fun key => (p.find? key).map (key, ·) := by
  obtain ⟨entries, distinct⟩ := p
  change entries = (entries.map Prod.fst).filterMap fun key => (entries.lookup key).map (key, ·)
  induction entries with
  | nil => rfl
  | cons e entries ih =>
    obtain ⟨new, distinct⟩ := List.nodup_cons.1 distinct
    have others : (entries.map Prod.fst).filterMap (fun key => ((e :: entries).lookup key).map (key, ·)) =
        (entries.map Prod.fst).filterMap fun key => (entries.lookup key).map (key, ·) := by
      apply List.filterMap_congr
      intro key member
      have other : key ≠ e.1 := fun same => new (same ▸ member)
      rw [lookup_cons_of_ne other]
    rw [List.map_cons, List.filterMap_cons, others, ← ih distinct, List.lookup_cons_self]
    rfl

theorem ext_find? {p q : Properties} (keys : p.keys = q.keys)
    (values : ∀ key, p.find? key = q.find? key) : p = q := by
  apply ext_entries
  rw [entries_eq p, entries_eq q, keys]
  simp only [values]

/-! ## Setting pairs -/

@[simp] theorem setAll_nil (p : Properties) : p.setAll [] = p := rfl

theorem setAll_append (p : Properties) (xs ys : List (Text × Value)) :
    p.setAll (xs ++ ys) = (p.setAll xs).setAll ys := List.foldl_append

theorem setAll_concat (p : Properties) (pairs : List (Text × Value)) (e : Text × Value) :
    p.setAll (pairs ++ [e]) = (p.setAll pairs).set e.1 e.2 := setAll_append p pairs [e]

theorem keys_set_of_mem {p : Properties} {key : Text} (h : key ∈ p.keys) (value : Value) :
    (p.set key value).keys = p.keys := (keys_set p key value).trans (if_pos h)

theorem keys_set_of_not_mem {p : Properties} {key : Text} (h : key ∉ p.keys) (value : Value) :
    (p.set key value).keys = p.keys ++ [key] := (keys_set p key value).trans (if_neg h)

theorem keys_setAll (p : Properties) (pairs : List (Text × Value)) :
    (p.setAll pairs).keys = (p.keys ++ pairs.map Prod.fst).eraseDups := by
  induction pairs using List.reverseRecOn with
  | nil => rw [List.map_nil, List.append_nil, eraseDups_of_nodup p.nodup_keys, setAll_nil]
  | append_singleton pairs e ih =>
    rw [setAll_concat, List.map_append, List.map_singleton, ← List.append_assoc]
    by_cases member : e.1 ∈ p.keys ++ pairs.map Prod.fst
    · have there : e.1 ∈ (p.setAll pairs).keys := by rwa [ih, List.mem_eraseDups]
      rw [keys_set_of_mem there, ih, eraseDups_concat_of_mem member]
    · have absent : e.1 ∉ (p.setAll pairs).keys := by rwa [ih, List.mem_eraseDups]
      rw [keys_set_of_not_mem absent, ih, eraseDups_concat_of_not_mem member]

theorem find?_setAll (p : Properties) (pairs : List (Text × Value)) (key : Text) :
    (p.setAll pairs).find? key = (lastValue key pairs).or (p.find? key) := by
  induction pairs using List.reverseRecOn with
  | nil => rfl
  | append_singleton pairs e ih =>
    rw [setAll_concat, find?_set, lastValue_concat, ih]
    by_cases here : key = e.1
    · rw [if_pos here, if_pos here.symm]
      rfl
    · rw [if_neg here, if_neg (Ne.symm here)]

/-- The last pair wins. -/
theorem lastWins_ofList (pairs : List (Text × Value)) : (ofList pairs).LastWins pairs where
  keys := keys_setAll empty pairs
  find? key := by rw [ofList, find?_setAll, find?_empty, Option.or_none]

theorem ofList_entries (p : Properties) : ofList p.entries = p := by
  have wins := lastWins_ofList p.entries
  refine ext_find? (wins.keys.trans (eraseDups_of_nodup p.distinct)) fun key => ?_
  exact (wins.find? key).trans (lastValue_of_nodup p.distinct key)

theorem mem_of_mem_assign {key : Text} {value : Value} {entries : List (Text × Value)}
    {e : Text × Value} (h : e ∈ assign key value entries) : e = (key, value) ∨ e ∈ entries := by
  induction entries with
  | nil => exact .inl (List.mem_singleton.1 h)
  | cons first rest ih =>
    obtain ⟨k, v⟩ := first
    rw [assign] at h
    split at h
    next same =>
      rcases List.mem_cons.1 h with rfl | member
      · exact .inl (by rw [same])
      · exact .inr (List.mem_cons_of_mem _ member)
    · rcases List.mem_cons.1 h with rfl | member
      · exact .inr List.mem_cons_self
      · exact (ih member).imp_right (List.mem_cons_of_mem _)

theorem mem_of_mem_setAll {p : Properties} {pairs : List (Text × Value)} {e : Text × Value}
    (h : e ∈ (p.setAll pairs).entries) : e ∈ pairs ∨ e ∈ p.entries := by
  induction pairs using List.reverseRecOn with
  | nil => exact .inr h
  | append_singleton pairs last ih =>
    rw [setAll_concat] at h
    rcases mem_of_mem_assign h with rfl | member
    · exact .inl (by simp)
    · exact (ih member).imp_left (List.mem_append_left _)

/-! ## Copying a map -/

theorem setAll_set (target p : Properties) (key : Text) (value : Value) :
    target.setAll (p.set key value).entries = (target.setAll p.entries).set key value := by
  have values (q : Properties) (k : Text) :
      (target.setAll q.entries).find? k = (q.find? k).or (target.find? k) := by
    rw [find?_setAll, lastValue_of_nodup q.distinct]
    rfl
  have order (q : Properties) :
      (target.setAll q.entries).keys = (target.keys ++ q.keys).eraseDups :=
    keys_setAll target q.entries
  apply ext_find?
  · by_cases member : key ∈ p.keys
    · have there : key ∈ (target.setAll p.entries).keys := by simp [order, member]
      rw [order, keys_set_of_mem member, keys_set_of_mem there, order]
    · rw [order, keys_set_of_not_mem member, ← List.append_assoc]
      by_cases earlier : key ∈ target.keys
      · have there : key ∈ (target.setAll p.entries).keys := by simp [order, earlier]
        rw [keys_set_of_mem there, order, eraseDups_concat_of_mem (List.mem_append_left _ earlier)]
      · have absent : key ∉ (target.setAll p.entries).keys := by simp [order, earlier, member]
        rw [keys_set_of_not_mem absent, order, eraseDups_concat_of_not_mem (by simp [earlier, member])]
  · intro k
    rw [values, find?_set, find?_set, values]
    split <;> rfl

/-- Setting the entries of a map of pairs sets the pairs. -/
theorem setAll_ofList (target : Properties) (pairs : List (Text × Value)) :
    target.setAll (ofList pairs).entries = target.setAll pairs := by
  induction pairs using List.reverseRecOn with
  | nil => rfl
  | append_singleton pairs e ih => rw [ofList, setAll_concat, setAll_concat, setAll_set, ← ih, ofList]

theorem applyTo_ofList {pairs : List (Text × Value)} (set : ∀ e ∈ pairs, e.2.isUnset = false)
    (target : Properties) : (ofList pairs).applyTo target = target.setAll pairs := by
  have all : (ofList pairs).entriesSet = (ofList pairs).entries := by
    apply List.filter_eq_self.2
    intro e member
    have given : e ∈ pairs := (mem_of_mem_setAll member).resolve_right List.not_mem_nil
    rw [set e given]
    rfl
  rw [applyTo, all, setAll_ofList]

end EditorSettings.Properties
