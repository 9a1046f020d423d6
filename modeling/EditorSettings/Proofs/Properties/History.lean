import Mathlib.Data.List.Basic
import EditorSettings.Properties.Edit
import EditorSettings.Proofs.Properties.LastWins
import EditorSettings.Proofs.Property.Spelling

/-! # A map is what its history leaves

The history of a map is what happened to its keys, one write or removal after the other.  What the map should
hold can be read off it: the value that was last written to a key, and the keys in the order of the earliest
write since their last removal, which is called their birth.  `History.edit` says what a change does to a
history and what it answers, without any map.

A map follows its history through every change (`leftBy_edit`), so through every sequence of them
(`map_follows_history`).
-/

namespace EditorSettings

/-- What happens to a key of a map. -/
inductive KeyEvent
  | written (key : Text) (value : Value)
  | removed (key : Text)

def KeyEvent.key : KeyEvent → Text
  | written key _ | removed key => key

/-- What happened to the keys of a map, the latest first. -/
abbrev History := List KeyEvent

namespace History

/-! ## What a history leaves -/

/-- The value that was last written to a key, unless the key was removed since. -/
def last (key : Text) : History → Option Value
  | [] => none
  | .written k v :: earlier => if k = key then some v else last key earlier
  | .removed k :: earlier => if k = key then none else last key earlier

/-- The number of the earliest write of a key since its last removal, counted from the first event. -/
def birth (key : Text) : History → Option Nat
  | [] => none
  | .written k _ :: earlier =>
    if k = key then (birth key earlier).or (some earlier.length) else birth key earlier
  | .removed k :: earlier => if k = key then none else birth key earlier

/-- The keys that are there, in the order of their births. -/
def keys (h : History) : List Text :=
  (h.reverse.zipIdx.filter fun e => birth e.1.key h = some e.2).map (·.1.key)

def value (h : History) (key : Text) : Value := (last key h).getD .unset

theorem isSome_birth (key : Text) (h : History) : (birth key h).isSome = (last key h).isSome := by
  induction h with
  | nil => rfl
  | cons e earlier ih =>
    cases e with
    | written k v =>
      rw [birth, last]
      split
      · simp
      · exact ih
    | removed k =>
      rw [birth, last]
      split
      · rfl
      · exact ih

theorem birth_lt {key : Text} {h : History} {n : Nat} (born : birth key h = some n) : n < h.length := by
  induction h with
  | nil => cases born
  | cons e earlier ih =>
    cases e with
    | written k v =>
      rw [birth] at born
      split at born
      · rcases Option.or_eq_some_iff.1 born with before | ⟨_, now⟩
        · exact Nat.lt_succ_of_lt (ih before)
        · cases now
          exact Nat.lt_succ_self _
      · exact Nat.lt_succ_of_lt (ih born)
    | removed k =>
      rw [birth] at born
      split at born
      · cases born
      · exact Nat.lt_succ_of_lt (ih born)

theorem keys_cons (e : KeyEvent) (h : History) :
    keys (e :: h) = (h.reverse.zipIdx.filter fun x => birth x.1.key (e :: h) = some x.2).map (·.1.key) ++
      if birth e.key (e :: h) = some h.length then [e.key] else [] := by
  rw [keys, List.reverse_cons, List.zipIdx_append, List.filter_append, List.map_append]
  congr 1
  rw [List.zipIdx_singleton, List.length_reverse, Nat.zero_add]
  by_cases born : birth e.key (e :: h) = some h.length <;> simp [born]

theorem keys_written (key : Text) (v : Value) (h : History) :
    keys (.written key v :: h) = if (last key h).isSome then keys h else keys h ++ [key] := by
  have others : h.reverse.zipIdx.filter (fun x => birth x.1.key (.written key v :: h) = some x.2) =
      h.reverse.zipIdx.filter fun x => birth x.1.key h = some x.2 := by
    apply List.filter_congr
    intro x member
    have early : x.2 < h.length := by simpa using List.snd_lt_of_mem_zipIdx member
    rw [birth]
    split
    · -- an earlier event does not have the number of this one
      cases birth x.1.key h with
      | none => simp [Nat.ne_of_gt early]
      | some n => rfl
    · rfl
  have here : birth key (.written key v :: h) = some h.length ↔ (last key h).isSome = false := by
    rw [birth, if_pos rfl, ← isSome_birth]
    cases born : birth key h with
    | none => simp
    | some n => simp [Nat.ne_of_lt (birth_lt born)]
  rw [keys_cons, others, KeyEvent.key]
  cases there : (last key h).isSome with
  | true => rw [if_neg (by simp [here, there]), if_pos rfl, List.append_nil, keys]
  | false => rw [if_pos (here.2 there), if_neg Bool.false_ne_true, keys]

theorem keys_removed (key : Text) (h : History) :
    keys (.removed key :: h) = (keys h).filter (· ≠ key) := by
  have gone : birth key (.removed key :: h) ≠ some h.length := by simp [birth]
  rw [keys_cons, KeyEvent.key, if_neg gone, List.append_nil, keys, List.filter_map, List.filter_filter]
  congr 2
  funext x
  by_cases same : key = x.1.key
  · simp [birth, same]
  · simp [birth, same, Ne.symm same]

/-! ## Changes -/

def write (h : History) (pairs : List (Text × Value)) : History :=
  pairs.foldl (fun h e => .written e.1 e.2 :: h) h

def impliedSize (value : Text → Value) : List (Text × Value) :=
  if (value PropertyKind.indentSize.key).withoutUnset.isUnset &&
      Text.lower (value PropertyKind.indentStyle.key).withoutUnset.text = IndentStyle.tabs.word then
    [(PropertyKind.indentSize.key, .ofText IndentSize.tab.text)]
  else []

def sharedWidth (value : Text → Value) : List (Text × Value) :=
  let size := (value PropertyKind.indentSize.key).withoutUnset
  let width := (value PropertyKind.tabWidth.key).withoutUnset
  if Text.lower size.text = IndentSize.tab.text then
    if width.isUnset then [] else [(PropertyKind.indentSize.key, width)]
  else if !size.isUnset && width.isUnset then [(PropertyKind.tabWidth.key, size)]
  else []

/-- What a change answers, and the history after it. -/
def edit (h : History) : Edit → Except Edit.Failure Edit.Answer × History
  | .set key v => (.ok .done, .written key v :: h)
  | .delete key =>
    if (last key h).isSome then (.ok .done, .removed key :: h) else (.error (.noSuchKey key), h)
  | .tryInsert key v =>
    if (value h key).isUnset then (.ok (.changed true), .written key v :: h)
    else (.ok (.changed false), h)
  | .insertProperty property =>
    match property.write with
    | .error e => (.error (.tooManyDigits e), h)
    | .ok text => (.ok .done, .written property.kind.key (.ofText text) :: h)
  | .pop key default =>
    match last key h, default with
    | some v, _ => (.ok (.value v), .removed key :: h)
    | none, some v => (.ok (.value v), h)
    | none, none => (.error (.noSuchKey key), h)
  | .popOldest =>
    match keys h with
    | key :: _ => (.ok (.entry key (value h key)), .removed key :: h)
    | [] => (.error .noKeys, h)
  | .getOrSet key default =>
    match last key h with
    | some v => (.ok (.value v), h)
    | none => (.ok (.value default), .written key default :: h)
  | .update pairs => (.ok .done, write h pairs)
  | .clear => (.ok .done, (keys h).foldl (fun h key => .removed key :: h) h)
  | .apply other => (.ok .done, write h other.entriesSet)
  | .fallbacks legacy =>
    let implied := if legacy then h else write h (impliedSize (value h))
    (.ok .done, write implied (sharedWidth (value implied)))

def editAll (h : History) (edits : List Edit) : History := edits.foldl (fun h e => (edit h e).2) h

end History

namespace Properties

/-- A map is what a history leaves. -/
structure LeftBy (p : Properties) (h : History) : Prop where
  keys : p.keys = History.keys h
  find? : ∀ key, p.find? key = History.last key h

section

variable {p : Properties} {h : History}

theorem LeftBy.value (left : p.LeftBy h) (key : Text) : p.value key = History.value h key := by
  rw [Properties.value, History.value, left.find?]

/-! ## One event -/

theorem LeftBy.set (left : p.LeftBy h) (key : Text) (v : Value) :
    (p.set key v).LeftBy (.written key v :: h) where
  keys := by
    rw [History.keys_written, ← left.find?, ← left.keys]
    split
    next there => exact keys_set_of_mem (isSome_find?_iff.1 there) v
    next missing => exact keys_set_of_not_mem (fun member => missing (isSome_find?_iff.2 member)) v
  find? k := by
    rw [find?_set, History.last, left.find?]
    simp only [eq_comm]

theorem keys_erase (p : Properties) (key : Text) : (p.erase key).keys = p.keys.filter (· ≠ key) := by
  rw [Properties.keys, Properties.keys, List.filter_map]
  rfl

theorem LeftBy.erase (left : p.LeftBy h) (key : Text) : (p.erase key).LeftBy (.removed key :: h) where
  keys := by rw [keys_erase, History.keys_removed, left.keys]
  find? k := by
    rw [find?_erase, History.last, left.find?]
    simp only [eq_comm]

theorem LeftBy.setAll (left : p.LeftBy h) (pairs : List (Text × Value)) :
    (p.setAll pairs).LeftBy (h.write pairs) := by
  induction pairs generalizing p h with
  | nil => exact left
  | cons e pairs ih => exact ih (left.set e.1 e.2)

theorem LeftBy.eraseAll (left : p.LeftBy h) (keys : List Text) :
    (keys.foldl Properties.erase p).LeftBy (keys.foldl (fun h key => .removed key :: h) h) := by
  induction keys generalizing p h with
  | nil => exact left
  | cons key keys ih => exact ih (left.erase key)

theorem eraseAll_keys (p : Properties) : p.keys.foldl Properties.erase p = empty := by
  -- taking keys out one by one is one filter
  have entries (ks : List Text) (q : Properties) :
      (ks.foldl Properties.erase q).entries = q.entries.filter fun e => e.1 ∉ ks := by
    induction ks generalizing q with
    | nil => simp
    | cons k ks ih =>
      have first : (q.erase k).entries = q.entries.filter fun e => e.1 ≠ k := rfl
      simp [List.foldl_cons, ih, first, List.filter_filter, Bool.and_comm]
  apply ext_entries
  rw [entries]
  refine List.filter_eq_nil_iff.2 fun e member => ?_
  have there : e.1 ∈ p.keys := List.mem_map_of_mem member
  simp [there]

/-! ## The fallbacks as writes -/

theorem impliedSize_eq (p : Properties) : p.impliedSize = p.setAll (History.impliedSize p.value) := by
  rw [impliedSize, History.impliedSize, apply_ite p.setAll]
  rfl

theorem sharedWidth_eq (p : Properties) : p.sharedWidth = p.setAll (History.sharedWidth p.value) := by
  simp only [sharedWidth, History.sharedWidth, apply_ite p.setAll]
  rfl

theorem LeftBy.useFallbacks (left : p.LeftBy h) (legacy : Bool) :
    (p.useFallbacks legacy).LeftBy (h.edit (.fallbacks legacy)).2 := by
  have shared {q : Properties} {k : History} (left : q.LeftBy k) :
      q.sharedWidth.LeftBy (k.write (History.sharedWidth k.value)) := by
    rw [sharedWidth_eq, funext left.value]
    exact left.setAll _
  cases legacy with
  | true => exact shared left
  | false =>
    refine shared ?_
    rw [impliedSize_eq, funext left.value]
    exact left.setAll _

/-! ## Every change -/

theorem text_of_write {property : Property} {t : Text} (h : property.write = .ok t) :
    t = property.text := by
  unfold Property.write at h
  split at h
  case h_4 => exact (Except.ok.inj h).symm
  all_goals
    obtain ⟨_, _, same⟩ := map_eq_ok_iff.1 h
    exact same.symm

theorem edit_popOldest_of_nil (order : p.keys = []) : p.edit .popOldest = (.error .noKeys, p) := by
  have none : p.popOldest? = none := by
    rw [popOldest?, List.map_eq_nil_iff.1 order]
    rfl
  rw [edit, none]

theorem edit_popOldest_of_cons {key : Text} {others : List Text} (order : p.keys = key :: others) :
    p.edit .popOldest = (.ok (.entry key (p.value key)), p.erase key) := by
  obtain ⟨e, rest, entries, rfl, _⟩ := List.map_eq_cons_iff.1 order
  have oldest : p.popOldest? = some (e, p.erase e.1) := by
    rw [popOldest?, entries]
    rfl
  have found : p.find? e.1 = some e.2 := find?_of_mem (entries ▸ List.mem_cons_self)
  rw [edit, oldest, value, found]
  rfl

/-- A map follows its history through a change, and both give the same answer. -/
theorem leftBy_edit (left : p.LeftBy h) (e : Edit) :
    (p.edit e).1 = (h.edit e).1 ∧ (p.edit e).2.LeftBy (h.edit e).2 := by
  cases e with
  | set key v => exact ⟨rfl, left.set key v⟩
  | delete key =>
    rw [edit, History.edit, contains, left.find?]
    split
    · exact ⟨rfl, left.erase key⟩
    · exact ⟨rfl, left⟩
  | tryInsert key v =>
    simp only [edit, History.edit, tryInsert, left.value]
    split
    · exact ⟨rfl, left.set key v⟩
    · exact ⟨rfl, left⟩
  | insertProperty property =>
    -- both write the number first, and neither goes on if it is too long
    simp only [edit, History.edit]
    cases written : property.write with
    | error e => exact ⟨rfl, left⟩
    | ok text =>
      rw [text_of_write written]
      exact ⟨rfl, left.set _ _⟩
  | pop key default =>
    simp only [edit, History.edit, pop?, left.find?]
    cases History.last key h with
    | some v => exact ⟨rfl, left.erase key⟩
    | none =>
      cases default with
      | some v => exact ⟨rfl, left⟩
      | none => exact ⟨rfl, left⟩
  | popOldest =>
    rw [History.edit, ← left.keys]
    cases order : p.keys with
    | nil =>
      rw [edit_popOldest_of_nil order]
      exact ⟨rfl, left⟩
    | cons key others =>
      rw [edit_popOldest_of_cons order, left.value]
      exact ⟨rfl, left.erase key⟩
  | getOrSet key default =>
    simp only [edit, History.edit, getOrSet, left.find?]
    cases History.last key h with
    | some v => exact ⟨rfl, left⟩
    | none => exact ⟨rfl, left.set key default⟩
  | update pairs => exact ⟨rfl, left.setAll pairs⟩
  | clear =>
    -- the history has every key removed, the map starts anew
    refine ⟨rfl, ?_⟩
    have gone := left.eraseAll p.keys
    rwa [eraseAll_keys, left.keys] at gone
  | apply other => exact ⟨rfl, left.setAll other.entriesSet⟩
  | fallbacks legacy => exact ⟨rfl, left.useFallbacks legacy⟩

/-- A change that fails leaves the map as it was. -/
theorem edit_of_error {e : Edit} {failure : Edit.Failure} (failed : (p.edit e).1 = .error failure) :
    (p.edit e).2 = p := by
  cases e with
  | set | tryInsert | getOrSet | update | clear | apply | fallbacks => cases failed
  | delete key =>
    rw [edit] at failed ⊢
    split at failed
    · cases failed
    next missing => rw [if_neg missing]
  | insertProperty property =>
    simp only [edit] at failed ⊢
    split at failed
    · rfl
    · cases failed
  | pop key default =>
    simp only [edit] at failed ⊢
    split at failed
    · cases failed
    · cases failed
    · rfl
  | popOldest =>
    cases order : p.keys with
    | nil => rw [edit_popOldest_of_nil order]
    | cons key others =>
      rw [edit_popOldest_of_cons order] at failed
      cases failed

theorem leftBy_editAll (left : p.LeftBy h) (edits : List Edit) : (p.editAll edits).LeftBy (h.editAll edits) := by
  induction edits generalizing p h with
  | nil => exact left
  | cons e edits ih => exact ih (leftBy_edit left e).2

end

theorem leftBy_empty : empty.LeftBy [] := ⟨rfl, fun _ => rfl⟩

/-- Whatever changes are made to a map of pairs, it stays what its history leaves: no key is there twice, the
keys are in the order of the earliest write since their last removal, and each has the value that was last
written to it.  The next change answers what the history says; if it fails, the map stays as it is, and taking
out the oldest key takes out the first. -/
theorem map_follows_history (pairs : List (Text × Value)) (edits : List Edit) :
    let p := (ofList pairs).editAll edits
    let h := (History.write [] pairs).editAll edits
    p.keys.Nodup ∧ p.keys = h.keys ∧
      (∀ key, p.find? key = h.last key ∧ p.value key = (h.last key).getD .unset) ∧
      (∀ e, (p.edit e).1 = (h.edit e).1) ∧
      (∀ e failure, (p.edit e).1 = .error failure → (p.edit e).2 = p) ∧
      ∀ key others, h.keys = key :: others →
        p.edit .popOldest = (.ok (.entry key (p.value key)), p.erase key) ∧ (p.erase key).keys = others := by
  intro p h
  have left : p.LeftBy h := leftBy_editAll (leftBy_empty.setAll pairs) edits
  refine ⟨p.nodup_keys, left.keys, fun key => ⟨left.find? key, left.value key⟩,
    fun e => (leftBy_edit left e).1, fun _ _ => edit_of_error, fun key others order => ?_⟩
  rw [← left.keys] at order
  have new : key ∉ others := (List.nodup_cons.1 (order ▸ p.nodup_keys)).1
  refine ⟨edit_popOldest_of_cons order, ?_⟩
  rw [keys_erase, order, List.filter_cons_of_neg (by simp)]
  exact List.filter_eq_self.2 fun k member => decide_eq_true fun same => new (same ▸ member)

/-- Changes of which the first one fails, and after which a key is there again. -/
def rebirth : List Edit :=
  [.delete ['x'], .tryInsert ['a'] (.ofText ['3']), .pop ['b'] none, .set ['c'] (.ofText ['4']),
    .set ['b'] (.ofText ['5']), .getOrSet ['c'] (.ofText ['9']), .popOldest,
    .apply (ofList [(['c'], .unset), (['d'], .ofText ['6'])]), .fallbacks false]

theorem map_follows_history_rebirth :
    let pairs : List (Text × Value) := [(['b'], .ofText ['1']), (['a'], .unset), (['b'], .ofText ['2'])]
    let p := (ofList pairs).editAll rebirth
    ((History.write [] pairs).editAll rebirth).keys = [['c'], ['b'], ['d']] ∧
      p.keys = [['c'], ['b'], ['d']] ∧ p.value ['c'] = .ofText ['4'] ∧
      (p.edit (.delete ['a'])).1 = .error (.noSuchKey ['a']) ∧ (p.edit (.delete ['a'])).2 = p ∧
      (p.edit .popOldest).1 = .ok (.entry ['c'] (.ofText ['4'])) ∧ (p.erase ['c']).keys = [['b'], ['d']] := by
  intro pairs p
  obtain ⟨_, keys, values, _, unchanged, oldest⟩ := map_follows_history pairs rebirth
  have order : ((History.write [] pairs).editAll rebirth).keys = [['c'], ['b'], ['d']] := by decide
  have failed : (p.edit (.delete ['a'])).1 = .error (.noSuchKey ['a']) := by decide
  have four : p.value ['c'] = .ofText ['4'] := (values ['c']).2.trans (by decide)
  obtain ⟨popped, others⟩ := oldest ['c'] [['b'], ['d']] order
  exact ⟨order, keys.trans order, four, failed, unchanged _ _ failed,
    (congrArg Prod.fst popped).trans (by rw [four]), others⟩

end Properties

end EditorSettings
