import EditorSettings.Proofs.Document.Correspondence

/-! # Where a text comes from does not matter

The path of a file appears in the sources of values and in errors, and nowhere else.  `unplaced` forgets
it, and forgetting it commutes with everything that is done with values, maps, sections and readers.  So a
text that is read from two files gives the same texts and the same errors up to the path.
-/

namespace EditorSettings

/-! ## Forgetting the path -/

def Value.unplaced (v : Value) : Value := .ofText v.text

def ParseError.unplaced (e : ParseError) : ParseError := { e with path := none }

def Failure.unplaced : Failure → Failure
  | .malformed e => .malformed e.unplaced
  | .unreadable f _ => .unreadable f ⟨.relative, []⟩
  | .tooManyDigits e => .tooManyDigits e

namespace Properties

def texts (p : Properties) : List (Text × Text) := p.entries.map fun e => (e.1, e.2.text)

def unplacedEntry (e : Text × Value) : Text × Value := (e.1, e.2.unplaced)

def unplaced (p : Properties) : Properties where
  entries := p.entries.map unplacedEntry
  distinct := by
    rw [List.map_map]
    exact p.distinct

end Properties

def Reader.unplaced (r : Reader) : Reader := { r with path := none }

/-! ## Values and maps -/

namespace Properties

section Maps

variable (p : Properties)

theorem texts_unplaced : p.unplaced.texts = p.texts := by
  rw [texts, unplaced, List.map_map]
  rfl

theorem lookup_unplaced (key : Text) (entries : List (Text × Value)) :
    (entries.map unplacedEntry).lookup key = (entries.lookup key).map Value.unplaced := by
  induction entries with
  | nil => rfl
  | cons e rest ih =>
    obtain ⟨k, v⟩ := e
    rw [List.map_cons, unplacedEntry]
    by_cases here : key = k
    · subst here
      rw [List.lookup_cons_self, List.lookup_cons_self, Option.map_some]
    · rw [lookup_cons_of_ne here, lookup_cons_of_ne here, ih]

@[simp] theorem set_unplaced (key : Text) (value : Value) :
    (p.set key value).unplaced = p.unplaced.set key value.unplaced :=
  set_mapValues Value.unplaced p key value

theorem value_unplaced (key : Text) : p.unplaced.value key = (p.value key).unplaced := by
  have found : p.unplaced.find? key = (p.find? key).map Value.unplaced := lookup_unplaced key p.entries
  rw [value, value, found]
  cases p.find? key <;> rfl

theorem effective_unplaced (kind : PropertyKind) :
    p.unplaced.effective kind = (p.effective kind).unplaced := by
  rw [effective, effective, value_unplaced, Value.withoutUnset, Value.withoutUnset, apply_ite Value.unplaced]
  rfl

theorem impliedSize_unplaced : p.impliedSize.unplaced = p.unplaced.impliedSize := by
  rw [impliedSize, impliedSize, effective_unplaced, effective_unplaced, apply_ite unplaced, set_unplaced]
  rfl

theorem sharedWidth_unplaced : p.sharedWidth.unplaced = p.unplaced.sharedWidth := by
  simp only [sharedWidth, effective_unplaced, apply_ite unplaced, set_unplaced]
  rfl

/-- The fallbacks look at texts only. -/
theorem useFallbacks_unplaced (legacy : Bool) :
    (p.useFallbacks legacy).unplaced = p.unplaced.useFallbacks legacy := by
  rw [useFallbacks, useFallbacks, sharedWidth_unplaced]
  cases legacy with
  | true => rfl
  | false => exact congrArg sharedWidth p.impliedSize_unplaced

end Maps

end Properties

/-! ## Readers -/

namespace Reader

/-- Lines that were read from a file, as if they came from none. -/
def unplacing (path : Option Path) : Transfer path none where
  number := id
  value := Value.unplaced
  error := ParseError.unplaced
  failure := Failure.unplaced
  value_valueAt _ _ := rfl
  error_line _ _ := rfl
  failure_malformed _ := rfl
  failure_tooManyDigits _ := rfl

section Readers

variable (r : Reader)

theorem follows_unplaced : (unplacing r.path).Follows r r.unplaced :=
  ⟨rfl, rfl, rfl, rfl, .refl r.lineNo r.rest⟩

theorem failure?_unplaced : r.unplaced.failure? = r.failure?.map Failure.unplaced :=
  r.follows_unplaced.failure?

theorem applyTo_unplaced (path : List Component) (target : Properties) :
    (r.applyTo path target).unplaced = r.unplaced.applyTo path target.unplaced :=
  r.follows_unplaced.applyTo (fun _ => rfl) path target

theorem preamble_unplaced (path : Option Path) (isRoot : Bool) (n : Nat) (lines : List Text) :
    preamble none isRoot n lines =
      ((preamble path isRoot n lines).map unplaced).mapError ParseError.unplaced := by
  induction lines generalizing isRoot n with
  | nil => rfl
  | cons t rest ih =>
    rw [preamble, preamble]
    cases read : Line.parse t with
    | error fault =>
      rw [Line.parseAt_of_error read, Line.parseAt_of_error read]
      rfl
    | ok line =>
      rw [Line.parseAt_of_ok read, Line.parseAt_of_ok read]
      cases line with
      | blank => exact ih isRoot (n + 1)
      | header pattern => rfl
      | pair key value => exact ih (rootAfter isRoot key value) (n + 1)

theorem ofText_unplaced (path : Option Path) (t : Text) :
    ofText none t = ((ofText path t).map unplaced).mapError ParseError.unplaced :=
  preamble_unplaced path false 0 (Text.lines t)

end Readers

end Reader

end EditorSettings
