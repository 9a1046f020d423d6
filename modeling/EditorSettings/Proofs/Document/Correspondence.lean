import EditorSettings.Proofs.Document.Reading

/-! # Files that are read alike

A reader sees no more of a line than what it is parsed as, and its number.  So if the lines of a second file
are those of the first one with blank lines among them (`Padded`), it is read as the first one is: `Transfer`
says what becomes of the values and the errors, and `Transfer.Follows` that two readers stand at
corresponding lines, which all that a reader does keeps.
-/

namespace EditorSettings

/-! ## Other values -/

namespace Properties

def mapValues (f : Value → Value) (p : Properties) : Properties where
  entries := p.entries.map fun e => (e.1, f e.2)
  distinct := by
    rw [List.map_map]
    exact p.distinct

section MapValues

variable (f : Value → Value)

theorem assign_map (key : Text) (value : Value) (entries : List (Text × Value)) :
    (assign key value entries).map (fun e => (e.1, f e.2)) =
      assign key (f value) (entries.map fun e => (e.1, f e.2)) := by
  induction entries with
  | nil => rfl
  | cons e rest ih =>
    obtain ⟨k, v⟩ := e
    by_cases here : k = key
    · simp [assign, here]
    · simp [assign, here, ih]

theorem set_mapValues (p : Properties) (key : Text) (value : Value) :
    (p.set key value).mapValues f = (p.mapValues f).set key (f value) :=
  ext_entries (assign_map f key value p.entries)

theorem setAll_mapValues (p : Properties) (pairs : List (Text × Value)) :
    (p.setAll pairs).mapValues f = (p.mapValues f).setAll (pairs.map fun e => (e.1, f e.2)) := by
  induction pairs generalizing p with
  | nil => rfl
  | cons e pairs ih =>
    change ((p.set e.1 e.2).setAll pairs).mapValues f = _
    rw [ih, set_mapValues]
    rfl

theorem applyTo_mapValues {f : Value → Value} (kept : ∀ v, (f v).isUnset = v.isUnset)
    (p target : Properties) :
    (p.applyTo target).mapValues f = (p.mapValues f).applyTo (target.mapValues f) := by
  have set : p.entriesSet.map (fun e => (e.1, f e.2)) = (p.mapValues f).entriesSet := by
    rw [entriesSet, entriesSet, mapValues, List.filter_map]
    congr 2
    funext e
    exact congrArg (!·) (kept e.2).symm
  rw [applyTo, setAll_mapValues, set, applyTo]

end MapValues

end Properties

def Section.mapValues (f : Value → Value) (s : Section) : Section := { s with props := s.props.mapValues f }

section Sections

variable {f : Value → Value}

theorem Section.insert_mapValues (s : Section) (key : Text) (value : Value) :
    (s.insert key value).mapValues f = (s.mapValues f).insert key (f value) := by
  rw [insert, mapValues, Properties.set_mapValues]
  rfl

theorem Section.applyTo_mapValues (kept : ∀ v, (f v).isUnset = v.isUnset) (s : Section)
    (path : List Component) (target : Properties) :
    (s.applyTo path target).mapValues f = (s.mapValues f).applyTo path (target.mapValues f) := by
  rw [applyTo, apply_ite (Properties.mapValues f), Properties.applyTo_mapValues kept]
  rfl

theorem Section.mapValues_of_ofPattern {pattern : Text} {s : Section}
    (made : Section.ofPattern pattern = .ok s) : s.mapValues f = s := by
  rw [Section.ofPattern] at made
  split at made
  · cases made
  · cases made
    rfl

end Sections

namespace Reader

/-! ## Corresponding lines -/

/-- The second lines are the first ones, as far as they are parsed, with blank ones among them.  There are
`n` and `n'` lines above them, and `number` tells which line of the second file a line of the first one is. -/
inductive Padded (number : Nat → Nat) : Nat → List Text → Nat → List Text → Prop
  | nil {n n'} : Padded number n [] n' []
  | blank {n n' t lines lines'} (read : Line.parse t = .ok .blank)
      (more : Padded number n lines (n' + 1) lines') : Padded number n lines n' (t :: lines')
  | line {n n' t t' lines lines'} (read : Line.parse t' = Line.parse t) (place : number (n + 1) = n' + 1)
      (more : Padded number (n + 1) lines (n' + 1) lines') :
      Padded number n (t :: lines) n' (t' :: lines')

theorem Padded.refl (n : Nat) (lines : List Text) : Padded id n lines n lines := by
  induction lines generalizing n with
  | nil => exact .nil
  | cons t lines ih => exact .line rfl rfl (ih (n + 1))

/-- What is made in a second file of the numbers, values and errors of a first one. -/
structure Transfer (path path' : Option Path) where
  number : Nat → Nat
  value : Value → Value
  error : ParseError → ParseError
  failure : Failure → Failure
  value_valueAt : ∀ n t, value (valueAt path n t) = valueAt path' (number n) t
  error_line : ∀ fault n, error ⟨fault, some n, path.map Path.text⟩ =
    ⟨fault, some (number n), path'.map Path.text⟩
  failure_malformed : ∀ e, failure (.malformed e) = .malformed (error e)
  failure_tooManyDigits : ∀ e, failure (.tooManyDigits e) = .tooManyDigits e

namespace Transfer

variable {path path' : Option Path} (c : Transfer path path')

def result (x : Except Failure Section) : Except Failure Section :=
  (x.map (Section.mapValues c.value)).mapError c.failure

/-- The second reader stands where the first one does, and has the same lines before it. -/
structure Follows (r r' : Reader) : Prop where
  path : r.path = path
  path' : r'.path = path'
  isRoot : r'.isRoot = r.isRoot
  header : r'.header = r.header
  rest : Padded c.number r.lineNo r.rest r'.lineNo r'.rest

variable {c} {r r' : Reader} {n n' : Nat} {lines lines' : List Text}

theorem body_of_padded (here : r.path = path) (there : r'.path = path') (isRoot : r'.isRoot = r.isRoot)
    (padded : Padded c.number n lines n' lines') (s : Section) :
    ∃ result after after', r.body s n lines = (result, after) ∧
      r'.body (s.mapValues c.value) n' lines' =
        ((result.map (Section.mapValues c.value)).mapError c.error, after') ∧
      c.Follows after after' := by
  induction padded generalizing s with
  | nil => exact ⟨_, _, _, rfl, rfl, here, there, isRoot, rfl, .nil⟩
  | blank read _ ih =>
    rw [body_cons_of_blank read]
    exact ih s
  | @line n n' t t' lines lines' read place more ih =>
    cases first : Line.parse t with
    | error fault =>
      rw [first] at read
      rw [body_cons_of_error first, body_cons_of_error read]
      refine ⟨_, _, _, rfl, Prod.ext ?_ rfl, here, there, isRoot, rfl, more⟩
      exact congrArg Except.error (by rw [here, there, c.error_line, place])
    | ok line =>
      rw [first] at read
      cases line with
      | blank =>
        rw [body_cons_of_blank first, body_cons_of_blank read]
        exact ih s
      | header pattern =>
        rw [body_cons_of_header first, body_cons_of_header read]
        exact ⟨_, _, _, rfl, rfl, here, there, isRoot, rfl, more⟩
      | pair key value =>
        have carried : c.value (valueAt path (n + 1) value) = valueAt path' (n' + 1) value := by
          rw [c.value_valueAt, place]
        rw [body_cons_of_pair first, body_cons_of_pair read, here, there, ← carried,
          ← Section.insert_mapValues]
        exact ih _

theorem Follows.next_none (h : c.Follows r r') (called : r.next = none) : r'.next = none :=
  next_eq_none_iff.2 (h.header.trans (next_eq_none_iff.1 called))

theorem Follows.next_some (h : c.Follows r r') {result : Except Failure Section} {after : Reader}
    (called : r.next = some (result, after)) :
    ∃ after', r'.next = some (c.result result, after') ∧ c.Follows after after' := by
  cases header : r.header with
  | none => cases (next_eq_none_iff.2 header).symm.trans called
  | some pattern =>
    have header' := h.header.trans header
    cases made : Section.ofPattern pattern with
    | error e =>
      cases (next_of_error header made).symm.trans called
      refine ⟨r', ?_, h⟩
      rw [next_of_error header' made]
      exact congrArg (fun f => some (Except.error f, r')) (c.failure_tooManyDigits e).symm
    | ok s =>
      obtain ⟨read, after, after', body, body', follows⟩ := body_of_padded h.path h.path' h.isRoot h.rest s
      rw [Section.mapValues_of_ofPattern made] at body'
      rw [Reader.next, header] at called
      rw [Reader.next, header']
      simp only [made, body] at called
      simp only [made, body']
      cases read with
      | error e =>
        have carried : c.result (.error (.malformed e)) = .error (.malformed (c.error e)) :=
          congrArg Except.error (c.failure_malformed e)
        cases called
        exact ⟨_, carried ▸ rfl, follows⟩
      | ok s =>
        cases called
        exact ⟨_, rfl, follows⟩

theorem Follows.failure? (h : c.Follows r r') : r'.failure? = r.failure?.map c.failure := by
  induction r using all.induct generalizing r' with
  | case1 r called =>
    rw [failure?_of_none called, failure?_of_none (h.next_none called)]
    rfl
  | case2 r e after called =>
    obtain ⟨after', called', _⟩ := h.next_some called
    rw [failure?_of_error called, failure?_of_error called']
    rfl
  | case3 r s after called ih =>
    obtain ⟨after', called', follows⟩ := h.next_some called
    rw [failure?_of_ok called, failure?_of_ok called', ih follows]

theorem Follows.applyTo (h : c.Follows r r') (kept : ∀ v, (c.value v).isUnset = v.isUnset)
    (path : List Component) (target : Properties) :
    (r.applyTo path target).mapValues c.value = r'.applyTo path (target.mapValues c.value) := by
  induction r using all.induct generalizing r' target with
  | case1 r called => rw [applyTo_of_none called, applyTo_of_none (h.next_none called)]
  | case2 r e after called =>
    obtain ⟨after', called', _⟩ := h.next_some called
    rw [applyTo_of_error called, applyTo_of_error called']
  | case3 r s after called ih =>
    obtain ⟨after', called', follows⟩ := h.next_some called
    rw [applyTo_of_ok called, applyTo_of_ok called', ih follows, Section.applyTo_mapValues kept]

theorem preamble_of_padded (c : Transfer path path') (padded : Padded c.number n lines n' lines')
    (isRoot : Bool) :
    (∃ e, preamble path isRoot n lines = .error e ∧ preamble path' isRoot n' lines' = .error (c.error e)) ∨
    ∃ r r', preamble path isRoot n lines = .ok r ∧ preamble path' isRoot n' lines' = .ok r' ∧
      c.Follows r r' := by
  induction padded generalizing isRoot with
  | nil => exact .inr ⟨_, _, rfl, rfl, rfl, rfl, rfl, rfl, .nil⟩
  | @blank n n' t lines lines' read _ ih =>
    have passed : preamble path' isRoot n' (t :: lines') = preamble path' isRoot (n' + 1) lines' := by
      rw [preamble, Line.parseAt_of_ok read]
    rw [passed]
    exact ih isRoot
  | @line n n' t t' lines lines' read place more ih =>
    rw [preamble, preamble]
    cases first : Line.parse t with
    | error fault =>
      rw [first] at read
      rw [Line.parseAt_of_error first, Line.parseAt_of_error read]
      exact .inl ⟨_, rfl, by rw [c.error_line, place]⟩
    | ok line =>
      rw [first] at read
      rw [Line.parseAt_of_ok first, Line.parseAt_of_ok read]
      cases line with
      | blank => exact ih isRoot
      | header pattern => exact .inr ⟨_, _, rfl, rfl, rfl, rfl, rfl, rfl, more⟩
      | pair key value => exact ih (rootAfter isRoot key value)

end Transfer

end Reader

end EditorSettings
