import EditorSettings.Document.Reader
import EditorSettings.Proofs.Document.Settings
import EditorSettings.Proofs.Properties.LastWins

/-! # What a reader makes of its lines

A reader hands sections out one by one, and reads the header of a section while it is still in the one
before.  `Stands` says where it is in the lines of a file, and `next_cases` all that one call can do from
there.  If a reader never fails, applying it sets what the settings below it say whose headers match, in
the order of the lines (`applyTo_of_complete`).
-/

namespace EditorSettings

def Section.setAll (s : Section) (pairs : List (Text × Value)) : Section :=
  { s with props := s.props.setAll pairs }

namespace Reader

/-- A reader has read the lines above, the last of which is the header that it remembers.  Without a
header there is nothing more to read. -/
structure Stands (r : Reader) (above : List Text) : Prop where
  lineNo : r.lineNo = above.length
  header : ∀ {pattern}, r.header = some pattern → headerBelow above = some pattern
  done : r.header = none → r.rest = []

section Reading

variable {r : Reader} {s : Section} {above block rest : List Text} {t pattern : Text}

/-! ## The pairs of a section -/

theorem body_cons_of_blank (read : Line.parse t = .ok .blank) (n : Nat) :
    r.body s n (t :: rest) = r.body s (n + 1) rest := by
  rw [body, Line.parseAt_of_ok read]

theorem body_cons_of_pair {key value : Text} (read : Line.parse t = .ok (.pair key value)) (n : Nat) :
    r.body s n (t :: rest) = r.body (s.insert key (valueAt r.path (n + 1) value)) (n + 1) rest := by
  rw [body, Line.parseAt_of_ok read]

theorem body_cons_of_header (read : Line.parse t = .ok (.header pattern)) (n : Nat) :
    r.body s n (t :: rest) = (.ok s, { r with header := some pattern, rest, lineNo := n + 1 }) := by
  rw [body, Line.parseAt_of_ok read]

theorem body_cons_of_error {fault : Malformation} (read : Line.parse t = .error fault) (n : Nat) :
    r.body s n (t :: rest) = (.error ⟨fault, some (n + 1), r.path.map Path.text⟩,
      { r with header := none, rest, lineNo := n + 1 }) := by
  rw [body, Line.parseAt_of_error read]

theorem body_append (under : headerBelow above = some pattern) (plain : ∀ t ∈ block, Line.Plain t)
    (rest : List Text) :
    r.body s above.length (block ++ rest) =
      r.body (s.setAll ((settingsBelow above block).map (Setting.entry r.path)))
        (above ++ block).length rest := by
  induction block generalizing above s with
  | nil =>
    rw [List.append_nil]
    rfl
  | cons t block ih =>
    obtain ⟨first, others⟩ := List.forall_mem_cons.1 plain
    have below : headerBelow (above ++ [t]) = some pattern := by
      rw [headerBelow_concat, first.header?, Option.none_or, under]
    have next := fun s => ih (s := s) below others
    rw [List.length_append, List.length_singleton] at next
    rw [List.cons_append, List.append_cons, settingsBelow_cons]
    cases first with
    | blank read =>
      rw [body_cons_of_blank read, next, settingIn_of_blank read]
      rfl
    | pair read =>
      rw [body_cons_of_pair read, next, settingIn_of_pair under read]
      rfl

/-! ## One call -/

variable {glob : Glob}

theorem next_eq_none_iff : r.next = none ↔ r.header = none := by
  constructor
  · intro h
    rw [next] at h
    split at h
    next none => exact none
    · split at h
      · cases h
      · split at h <;> cases h
  · intro none
    rw [next, none]

theorem next_eq_ok_iff {after : Reader} : r.next = some (.ok s, after) ↔ ∃ q start, r.header = some q ∧
    Section.ofPattern q = .ok start ∧ r.body start r.lineNo r.rest = (.ok s, after) := by
  constructor
  · intro called
    rw [next] at called
    split at called
    · cases called
    next q header =>
      split at called
      · cases called
      next start made =>
        split at called
        · cases called
        next read =>
          cases called
          exact ⟨q, start, header, made, read⟩
  · rintro ⟨q, start, header, made, read⟩
    rw [next, header]
    simp only [made, read]

theorem next_of_error {e : TooManyDigits} (header : r.header = some pattern)
    (fails : Section.ofPattern pattern = .error e) : r.next = some (.error (.tooManyDigits e), r) := by
  rw [next, header]
  simp only [fails]

theorem next_last (header : r.header = some pattern) (made : Section.ofPattern pattern = .ok s)
    (stands : r.Stands above) (plain : ∀ t ∈ r.rest, Line.Plain t) :
    r.next = some (.ok (s.setAll ((settingsBelow above r.rest).map (Setting.entry r.path))),
      { r with header := none, rest := [], lineNo := (above ++ r.rest).length }) := by
  have read := body_append (r := r) (s := s) (stands.header header) plain []
  rw [List.append_nil] at read
  rw [next, header]
  simp only [made, stands.lineNo, read]
  rfl

theorem next_header {q : Text} (header : r.header = some pattern)
    (made : Section.ofPattern pattern = .ok s) (stands : r.Stands above)
    (split : r.rest = block ++ t :: rest) (plain : ∀ t ∈ block, Line.Plain t)
    (read : Line.parse t = .ok (.header q)) :
    r.next = some (.ok (s.setAll ((settingsBelow above block).map (Setting.entry r.path))),
      { r with header := some q, rest, lineNo := (above ++ block ++ [t]).length }) := by
  rw [next, header]
  simp only [made, stands.lineNo, split, body_append (stands.header header) plain,
    body_cons_of_header read, List.length_append, List.length_singleton]

theorem next_malformed {fault : Malformation} (header : r.header = some pattern)
    (made : Section.ofPattern pattern = .ok s) (stands : r.Stands above)
    (split : r.rest = block ++ t :: rest) (plain : ∀ t ∈ block, Line.Plain t)
    (read : Line.parse t = .error fault) :
    r.next = some (.error (.malformed ⟨fault, some (above ++ block ++ [t]).length, r.path.map Path.text⟩),
      { r with header := none, rest, lineNo := (above ++ block ++ [t]).length }) := by
  rw [next, header]
  simp only [made, stands.lineNo, split, body_append (stands.header header) plain,
    body_cons_of_error read, List.length_append, List.length_singleton]

theorem next_cases (header : r.header = some pattern) (stands : r.Stands above) :
    (∃ e, Section.ofPattern pattern = .error e ∧ r.next = some (.error (.tooManyDigits e), r)) ∨
    ∃ s block, Section.ofPattern pattern = .ok s ∧ (∀ t ∈ block, Line.Plain t) ∧
      ((r.rest = block ∧
          r.next = some (.ok (s.setAll ((settingsBelow above block).map (Setting.entry r.path))),
            { r with header := none, rest := [], lineNo := (above ++ block).length })) ∨
        (∃ t rest q, r.rest = block ++ t :: rest ∧ Line.parse t = .ok (.header q) ∧
          r.next = some (.ok (s.setAll ((settingsBelow above block).map (Setting.entry r.path))),
            { r with header := some q, rest, lineNo := (above ++ block ++ [t]).length })) ∨
        ∃ t rest fault, r.rest = block ++ t :: rest ∧ Line.parse t = .error fault ∧
          r.next = some
            (.error (.malformed ⟨fault, some (above ++ block ++ [t]).length, r.path.map Path.text⟩),
              { r with header := none, rest, lineNo := (above ++ block ++ [t]).length })) := by
  cases made : Section.ofPattern pattern with
  | error e => exact .inl ⟨e, rfl, next_of_error header made⟩
  | ok s =>
    obtain ⟨block, plain, last | ⟨t, rest, q, split, read⟩ | ⟨t, rest, fault, split, read⟩⟩ :=
      Line.exists_block r.rest
    · have here := next_last header made stands (last ▸ plain)
      rw [last] at here
      exact .inr ⟨s, block, rfl, plain, .inl ⟨last, here⟩⟩
    · exact .inr ⟨s, block, rfl, plain,
        .inr (.inl ⟨t, rest, q, split, read, next_header header made stands split plain read⟩)⟩
    · exact .inr ⟨s, block, rfl, plain,
        .inr (.inr ⟨t, rest, fault, split, read, next_malformed header made stands split plain read⟩)⟩

/-- A section holds the settings of the plain lines below its header, and the reader then stands behind
these lines and the next header. -/
theorem next_ok {after : Reader} (stands : r.Stands above) (h : r.next = some (.ok s, after)) :
    ∃ pattern start block below, headerBelow above = some pattern ∧
      Section.ofPattern pattern = .ok start ∧ (∀ t ∈ block, Line.Plain t) ∧
      s = start.setAll ((settingsBelow above block).map (Setting.entry r.path)) ∧
      after.Stands below ∧ after.path = r.path ∧
      settingsBelow above r.rest = settingsBelow above block ++ settingsBelow below after.rest := by
  cases header : r.header with
  | none =>
    cases (next_eq_none_iff.2 header).symm.trans h
  | some pattern =>
    have under := stands.header header
    obtain ⟨e, _, called⟩ | ⟨start, block, made, plain, last | following | malformed⟩ :=
      next_cases header stands
    · cases called.symm.trans h
    · obtain ⟨split, called⟩ := last
      cases called.symm.trans h
      refine ⟨pattern, start, block, above ++ block, under, made, plain, rfl, ⟨rfl, nofun, fun _ => rfl⟩,
        rfl, ?_⟩
      rw [split]
      exact (List.append_nil _).symm
    · obtain ⟨t, rest, q, split, read, called⟩ := following
      cases called.symm.trans h
      refine ⟨pattern, start, block, above ++ block ++ [t], under, made, plain, rfl,
        ⟨rfl, ?_, nofun⟩, rfl, ?_⟩
      · intro p same
        cases same
        exact headerBelow_header read (above ++ block)
      · rw [split, settingsBelow_append, settingsBelow_cons_of_header read]
    · obtain ⟨t, rest, fault, _, _, called⟩ := malformed
      cases called.symm.trans h

/-! ## All calls -/

theorem all_of_none (h : r.next = none) : r.all = ([], r) := by
  rw [all]
  split
  · rfl
  next called => cases h.symm.trans called
  next called => cases h.symm.trans called

theorem all_of_error {e : Failure} {after : Reader} (h : r.next = some (.error e, after)) :
    r.all = ([⟨r.header.getD [], .error e, after.lineNo⟩], after) := by
  rw [all]
  split
  next called => cases h.symm.trans called
  next called =>
    cases h.symm.trans called
    rfl
  next called => cases h.symm.trans called

theorem all_of_ok {after : Reader} (h : r.next = some (.ok s, after)) :
    r.all = (⟨s.pattern, .ok s, after.lineNo⟩ :: after.all.1, after.all.2) := by
  rw [all]
  split
  next called => cases h.symm.trans called
  next called => cases h.symm.trans called
  next called =>
    cases h.symm.trans called
    rfl

theorem failure?_of_none (h : r.next = none) : r.failure? = none := by
  rw [failure?, all_of_none h]
  rfl

theorem failure?_of_error {e : Failure} {after : Reader} (h : r.next = some (.error e, after)) :
    r.failure? = some e := by
  rw [failure?, all_of_error h]
  rfl

theorem failure?_of_ok {after : Reader} (h : r.next = some (.ok s, after)) :
    r.failure? = after.failure? := by
  rw [failure?, failure?, all_of_ok h]
  cases later : after.all.1 with
  | nil => rfl
  | cons y more => rw [List.getLast?_cons_cons]

theorem applyTo_of_none (h : r.next = none) (path : List Component) (target : Properties) :
    r.applyTo path target = target := by
  rw [applyTo, sections, all_of_none h]
  rfl

theorem applyTo_of_error {e : Failure} {after : Reader} (h : r.next = some (.error e, after))
    (path : List Component) (target : Properties) : r.applyTo path target = target := by
  rw [applyTo, sections, all_of_error h]
  rfl

theorem applyTo_of_ok {after : Reader} (h : r.next = some (.ok s, after)) (path : List Component)
    (target : Properties) : r.applyTo path target = after.applyTo path (s.applyTo path target) := by
  rw [applyTo, applyTo, sections, sections, all_of_ok h]
  rfl

end Reading

theorem applyTo_settings {s : Section} {above block : List Text} {pattern : Text}
    (made : Section.ofPattern pattern = .ok s) (under : headerBelow above = some pattern)
    (plain : ∀ t ∈ block, Line.Plain t) (source : Option Path) (path : List Component)
    (target : Properties) :
    (s.setAll ((settingsBelow above block).map (Setting.entry source))).applyTo path target =
      target.setAll
        (((settingsBelow above block).filter (Setting.appliesTo path)).map (Setting.entry source)) := by
  obtain ⟨glob, compiled, rfl⟩ : ∃ glob, Glob.compile (Symbol.ofText pattern) = .ok glob ∧
      s = ⟨pattern, glob, .empty⟩ := by
    rw [Section.ofPattern] at made
    split at made
    · cases made
    next glob compiled =>
      cases made
      exact ⟨glob, compiled, rfl⟩
  have alike : ∀ s ∈ settingsBelow above block, s.appliesTo path = glob.accepts path := by
    intro s member
    rw [Setting.appliesTo, pattern_of_mem_settingsBelow under plain member]
    simp only [compiled]
  have set : ∀ e ∈ (settingsBelow above block).map (Setting.entry source), e.2.isUnset = false := by
    intro e member
    obtain ⟨setting, inside, rfl⟩ := List.mem_map.1 member
    simpa [Value.isUnset, Setting.entry] using value_of_mem_settingsBelow inside
  have applied (pairs : List (Text × Value)) :
      (Section.setAll ⟨pattern, glob, .empty⟩ pairs).applyTo path target =
        if glob.accepts path then (Properties.ofList pairs).applyTo target else target := rfl
  rw [applied, Properties.applyTo_ofList set, List.filter_congr alike]
  cases glob.accepts path with
  | false => simp
  | true => simp

/-- A reader that does not fail sets what the settings below it say that apply to the path. -/
theorem applyTo_of_complete {r : Reader} {above : List Text} (stands : r.Stands above)
    (complete : r.failure? = none) (path : List Component) (target : Properties) :
    r.applyTo path target = target.setAll
      (((settingsBelow above r.rest).filter (Setting.appliesTo path)).map (Setting.entry r.path)) := by
  induction r using all.induct generalizing above target with
  | case1 r called =>
    rw [applyTo_of_none called, stands.done (next_eq_none_iff.1 called)]
    rfl
  | case2 r e after called => cases (failure?_of_error called).symm.trans complete
  | case3 r s after called ih =>
    obtain ⟨pattern, start, block, below, under, made, plain, rfl, stands', same, split⟩ :=
      next_ok stands called
    rw [applyTo_of_ok called, ih stands' ((failure?_of_ok called).symm.trans complete), split, same,
      applyTo_settings made under plain, List.filter_append, List.map_append, Properties.setAll_append]

/-! ## From the first line -/

/-- The preamble sets nothing, and leaves a reader behind the first header. -/
theorem stands_of_preamble {path : Option Path} {isRoot : Bool} {above lines : List Text} {r : Reader}
    (none : headerBelow above = none) (h : preamble path isRoot above.length lines = .ok r) :
    r.path = path ∧ ∃ below, r.Stands below ∧
      settingsBelow above lines = settingsBelow below r.rest := by
  induction lines generalizing isRoot above with
  | nil =>
    cases h
    exact ⟨rfl, above, ⟨rfl, nofun, fun _ => rfl⟩, rfl⟩
  | cons t rest ih =>
    have further {isRoot : Bool} (plain : Line.Plain t)
        (h : preamble path isRoot (above.length + 1) rest = .ok r) : r.path = path ∧
          ∃ below, r.Stands below ∧ settingsBelow above (t :: rest) = settingsBelow below r.rest := by
      have none' : headerBelow (above ++ [t]) = Option.none := by
        rw [headerBelow_concat, plain.header?, none, Option.or_none]
      rw [settingsBelow_cons, settingIn_of_preamble none]
      exact ih none' (by simpa using h)
    rw [preamble] at h
    cases read : Line.parse t with
    | error fault =>
      rw [Line.parseAt_of_error read] at h
      cases h
    | ok line =>
      rw [Line.parseAt_of_ok read] at h
      cases line with
      | blank => exact further (.blank read) h
      | pair key value => exact further (.pair read) h
      | header pattern =>
        cases h
        refine ⟨rfl, above ++ [t], ⟨by simp, ?_, nofun⟩, settingsBelow_cons_of_header read above rest⟩
        intro p same
        cases same
        exact headerBelow_header read above

theorem applyTo_of_ofLines {source : Option Path} {lines : List Text} {r : Reader}
    (opened : ofLines source lines = .ok r) (complete : r.failure? = none) (path : List Component)
    (target : Properties) :
    r.applyTo path target = target.setAll
      (((settingsBelow [] lines).filter (Setting.appliesTo path)).map (Setting.entry source)) := by
  have first : headerBelow [] = none := rfl
  obtain ⟨rfl, below, stands, same⟩ := stands_of_preamble first opened
  rw [applyTo_of_complete stands complete, same]

end Reader

end EditorSettings
