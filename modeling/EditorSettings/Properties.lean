import EditorSettings.Value
import EditorSettings.Property.Parse

/-!
# Properties of a file

The settings for one file are a map from keys to values that keeps its keys in the order in which
they were first set.  Giving a key a new value does not move it.

* `Properties.find?` looks a key up; `set`, `erase` and `tryInsert` change the map, and
  `find?_set` and `find?_erase` say how;
* `Properties.value` and `Properties.property` are the value and the meaning of a property;
* `Properties.applyTo` copies all values that are set onto another map;
* `Properties.useFallbacks` lets the indentation size and the tab width stand in for each other.
-/

namespace EditorSettings

/-- Keys with their values, in the order in which the keys were first set. -/
structure Properties where
  entries : List (Text × Value)
  distinct : (entries.map Prod.fst).Nodup

namespace Properties

@[ext] theorem ext_entries {p q : Properties} (h : p.entries = q.entries) : p = q := by
  cases p; cases q; cases h; rfl

instance : DecidableEq Properties := fun p q =>
  if h : p.entries = q.entries then isTrue (ext_entries h) else isFalse fun e => h (e ▸ rfl)

/-! ## Lists of pairs -/

/-- Give a key a value, at its place if it is there and at the end if it is not. -/
def assign (key : Text) (value : Value) : List (Text × Value) → List (Text × Value)
  | [] => [(key, value)]
  | (k, v) :: rest => if k = key then (k, value) :: rest else (k, v) :: assign key value rest

def without (key : Text) (entries : List (Text × Value)) : List (Text × Value) :=
  entries.filter fun e => e.1 ≠ key

theorem keys_assign (key : Text) (value : Value) (entries : List (Text × Value)) :
    (assign key value entries).map Prod.fst =
      if key ∈ entries.map Prod.fst then entries.map Prod.fst
      else entries.map Prod.fst ++ [key] := by
  induction entries with
  | nil => rfl
  | cons e rest ih =>
    obtain ⟨k, v⟩ := e
    by_cases h : k = key
    · simp [assign, h]
    · have h' : ¬ key = k := fun e => h e.symm
      simp only [assign, h, if_false, List.map_cons, ih, List.mem_cons, h', false_or]
      split <;> simp

theorem nodup_assign {key : Text} {value : Value} {entries : List (Text × Value)}
    (h : (entries.map Prod.fst).Nodup) : ((assign key value entries).map Prod.fst).Nodup := by
  rw [keys_assign]
  split
  · exact h
  · next hk =>
    refine List.nodup_append.2 ⟨h, by simp, ?_⟩
    intro a ha b hb
    have hb : b = key := by simpa using hb
    exact fun e => hk (hb ▸ e ▸ ha)

theorem nodup_filter {test : Text × Value → Bool} {entries : List (Text × Value)}
    (h : (entries.map Prod.fst).Nodup) : ((entries.filter test).map Prod.fst).Nodup :=
  h.sublist ((List.filter_sublist).map Prod.fst)

theorem lookup_cons_of_ne {key k : Text} (other : key ≠ k) (v : Value) (rest : List (Text × Value)) :
    ((k, v) :: rest).lookup key = rest.lookup key := by
  rw [List.lookup_cons, beq_eq_false_iff_ne.2 other]

theorem lookup_assign (key k : Text) (value : Value) (entries : List (Text × Value)) :
    (assign key value entries).lookup k = if k = key then some value else entries.lookup k := by
  induction entries with
  | nil =>
    by_cases here : k = key
    · simp [assign, here]
    · simp [assign, lookup_cons_of_ne here, here]
  | cons e rest ih =>
    obtain ⟨k', v⟩ := e
    by_cases same : k' = key
    · subst same
      by_cases here : k = k'
      · simp [assign, here]
      · simp [assign, lookup_cons_of_ne here, here]
    · by_cases here : k = k'
      · simp [assign, same, here]
      · simp [assign, same, lookup_cons_of_ne here, ih]

theorem lookup_without (key k : Text) (entries : List (Text × Value)) :
    (without key entries).lookup k = if k = key then none else entries.lookup k := by
  induction entries with
  | nil => simp [without]
  | cons e rest ih =>
    obtain ⟨k', v⟩ := e
    rw [without] at ih ⊢
    rw [List.filter_cons]
    by_cases same : k' = key
    · subst same
      by_cases here : k = k'
      · simpa [here] using ih
      · simpa [lookup_cons_of_ne here, here] using ih
    · by_cases here : k = k'
      · simp [same, here]
      · simpa [same, lookup_cons_of_ne here] using ih

/-! ## The map -/

def empty : Properties := ⟨[], List.nodup_nil⟩

def find? (p : Properties) (key : Text) : Option Value := p.entries.lookup key

def contains (p : Properties) (key : Text) : Bool := (p.find? key).isSome

def size (p : Properties) : Nat := p.entries.length

def set (p : Properties) (key : Text) (value : Value) : Properties :=
  ⟨assign key value p.entries, nodup_assign p.distinct⟩

def erase (p : Properties) (key : Text) : Properties :=
  ⟨without key p.entries, nodup_filter p.distinct⟩

def setAll (p : Properties) (pairs : List (Text × Value)) : Properties :=
  pairs.foldl (fun p e => p.set e.1 e.2) p

/-- The map of a list of pairs; a later pair replaces the value of an earlier one. -/
def ofList (pairs : List (Text × Value)) : Properties := empty.setAll pairs

@[simp] theorem find?_empty (k : Text) : empty.find? k = none := rfl

theorem find?_set (p : Properties) (key k : Text) (value : Value) :
    (p.set key value).find? k = if k = key then some value else p.find? k :=
  lookup_assign key k value p.entries

theorem find?_erase (p : Properties) (key k : Text) :
    (p.erase key).find? k = if k = key then none else p.find? k :=
  lookup_without key k p.entries

/-- A key stays at its place when it is given a value, and a new key comes last. -/
theorem keys_set (p : Properties) (key : Text) (value : Value) :
    (p.set key value).entries.map Prod.fst =
      if key ∈ p.entries.map Prod.fst then p.entries.map Prod.fst
      else p.entries.map Prod.fst ++ [key] :=
  keys_assign key value p.entries

/-- Whether two maps have the same keys with the same texts, in any order. -/
def same (p q : Properties) : Bool :=
  p.size = q.size && p.entries.all fun e => (q.find? e.1).any e.2.same

def pop? (p : Properties) (key : Text) : Option (Value × Properties) :=
  (p.find? key).map fun v => (v, p.erase key)

/-- Take the oldest key out and return it with its value. -/
def popOldest? (p : Properties) : Option ((Text × Value) × Properties) :=
  p.entries.head?.map fun e => (e, p.erase e.1)

/-- The value of a key, which is given `default` if it is not there. -/
def getOrSet (p : Properties) (key : Text) (default : Value) : Value × Properties :=
  match p.find? key with
  | some v => (v, p)
  | none => (default, p.set key default)

/-! ## Values and meanings -/

/-- The value of a key, with nothing set if the key is not there. -/
def value (p : Properties) (key : Text) : Value := (p.find? key).getD .unset

/-- The meaning of a value for a property.  There is none if nothing is set. -/
def meaning (v : Value) (kind : PropertyKind) : Except ValueError (Option Property) :=
  match v.withoutUnset.toOption with
  | none => .ok none
  | some t => (kind.parse t).map some

def property (p : Properties) (kind : PropertyKind) : Except ValueError (Option Property) :=
  meaning (p.value kind.key) kind

def setProperty (p : Properties) (property : Property) : Properties :=
  p.set property.kind.key (.ofText property.text)

/-- Set a key to a value unless something is set.  The flag tells whether it was. -/
def tryInsert (p : Properties) (key : Text) (value : Value) : Bool × Properties :=
  if (p.value key).isUnset then (true, p.set key value) else (false, p)

def entriesSet (p : Properties) : List (Text × Value) := p.entries.filter fun e => !e.2.isUnset

/-! ## Merging -/

def applyTo (p target : Properties) : Properties := target.setAll p.entriesSet

/-! ## Fallbacks -/

/-- The value of a property, with nothing set if it is the word `unset`. -/
def effective (p : Properties) (kind : PropertyKind) : Value := (p.value kind.key).withoutUnset

/-- Indentation with tabs implies a step as wide as a tab. -/
def impliedSize (p : Properties) : Properties :=
  if (p.effective .indentSize).isUnset &&
      Text.lower (p.effective .indentStyle).text = IndentStyle.tabs.word then
    p.set PropertyKind.indentSize.key (.ofText IndentSize.tab.text)
  else p

/-- A step as wide as a tab takes the width of a tab, and any other step gives a tab its width,
where that width is, respectively is not, set. -/
def sharedWidth (p : Properties) : Properties :=
  let size := p.effective .indentSize
  let width := p.effective .tabWidth
  -- `impliedSize` may have written the size that is looked at here
  if Text.lower size.text = IndentSize.tab.text then
    if width.isUnset then p else p.set PropertyKind.indentSize.key width
  else if !size.isUnset && width.isUnset then p.set PropertyKind.tabWidth.key size
  else p

/-- Fill in the indentation size and the tab width from each other.  The `legacy` rules do not
take the size from the style. -/
def useFallbacks (legacy : Bool) (p : Properties) : Properties :=
  (if legacy then p else p.impliedSize).sharedWidth

end Properties

end EditorSettings
