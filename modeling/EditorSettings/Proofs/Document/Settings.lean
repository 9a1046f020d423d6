import EditorSettings.Document.Section
import EditorSettings.Proofs.Document.Lines

/-! # The settings in lines

A line that is a pair is a `Setting` under the last header above it, and its number is one more than
there are lines above.  A line above the first header sets nothing.  What the lines of a file set is
read off them here without a reader.
-/

namespace EditorSettings

/-! ## Settings -/

/-- A pair of a settings file, with the header it stands under and the number of its line. -/
structure Setting where
  pattern : Text
  key : Text
  value : Text
  line : Nat
  deriving DecidableEq

namespace Line

def header? (t : Text) : Option Text :=
  match parse t with
  | .ok (.header pattern) => some pattern
  | _ => none

def pair? (t : Text) : Option (Text × Text) :=
  match parse t with
  | .ok (.pair key value) => some (key, value)
  | _ => none

/-- A line that neither starts a section nor is malformed. -/
inductive Plain (t : Text) : Prop
  | blank (read : parse t = .ok .blank)
  | pair {key value : Text} (read : parse t = .ok (.pair key value))

theorem parseAt_of_ok {t : Text} {line : Line} (read : parse t = .ok line) (path : Option Text)
    (number : Nat) : parseAt path number t = .ok line := by
  rw [parseAt, read]

theorem parseAt_of_error {t : Text} {fault : Malformation} (read : parse t = .error fault)
    (path : Option Text) (number : Nat) : parseAt path number t = .error ⟨fault, some number, path⟩ := by
  rw [parseAt, read]

theorem header?_of_header {t pattern : Text} (read : parse t = .ok (.header pattern)) :
    header? t = some pattern := by
  rw [header?, read]

theorem Plain.header? {t : Text} (h : Plain t) : header? t = none := by
  cases h with
  | blank read => rw [Line.header?, read]
  | pair read => rw [Line.header?, read]

/-- Lines up to the first that is not plain, if there is one. -/
theorem exists_block (lines : List Text) :
    ∃ block, (∀ t ∈ block, Plain t) ∧ (lines = block ∨
      (∃ t rest pattern, lines = block ++ t :: rest ∧ parse t = .ok (.header pattern)) ∨
      ∃ t rest fault, lines = block ++ t :: rest ∧ parse t = .error fault) := by
  induction lines with
  | nil => exact ⟨[], nofun, .inl rfl⟩
  | cons first rest ih =>
    -- a plain line joins the block of the lines after it
    have join (plain : Plain first) :
        ∃ block, (∀ t ∈ block, Plain t) ∧ (first :: rest = block ∨
          (∃ t more pattern, first :: rest = block ++ t :: more ∧ parse t = .ok (.header pattern)) ∨
          ∃ t more fault, first :: rest = block ++ t :: more ∧ parse t = .error fault) := by
      obtain ⟨block, plains, rfl | ⟨t, more, pattern, rfl, read⟩ | ⟨t, more, fault, rfl, read⟩⟩ := ih
      · exact ⟨_, List.forall_mem_cons.2 ⟨plain, plains⟩, .inl rfl⟩
      · exact ⟨first :: block, List.forall_mem_cons.2 ⟨plain, plains⟩,
          .inr (.inl ⟨t, more, pattern, rfl, read⟩)⟩
      · exact ⟨first :: block, List.forall_mem_cons.2 ⟨plain, plains⟩,
          .inr (.inr ⟨t, more, fault, rfl, read⟩)⟩
    cases read : parse first with
    | error fault => exact ⟨[], nofun, .inr (.inr ⟨first, rest, fault, rfl, read⟩)⟩
    | ok line =>
      cases line with
      | blank => exact join (.blank read)
      | header pattern => exact ⟨[], nofun, .inr (.inl ⟨first, rest, pattern, rfl, read⟩)⟩
      | pair key value => exact join (.pair read)

end Line

/-- The header that a line stands under: the last one above it. -/
def headerBelow (above : List Text) : Option Text := above.reverse.findSome? Line.header?

def settingIn (above : List Text) (t : Text) : Option Setting :=
  match headerBelow above, Line.pair? t with
  | some pattern, some (key, value) => some ⟨pattern, key, value, above.length + 1⟩
  | _, _ => none

def settingsBelow (above : List Text) : List Text → List Setting
  | [] => []
  | t :: rest => (settingIn above t).toList ++ settingsBelow (above ++ [t]) rest

namespace Setting

/-- The key and the value that the setting gives to a file, with the place that it stands at. -/
def entry (path : Option Path) (s : Setting) : Text × Value :=
  (Text.lower s.key, ⟨s.value, path.map fun p => ⟨p, s.line⟩⟩)

def appliesTo (path : List Component) (s : Setting) : Bool :=
  match Glob.compile (Symbol.ofText s.pattern) with
  | .error _ => false
  | .ok glob => glob.accepts path

end Setting

section Settings

variable {above block rest : List Text} {t pattern : Text}

theorem headerBelow_concat (above : List Text) (t : Text) :
    headerBelow (above ++ [t]) = (Line.header? t).or (headerBelow above) := by
  rw [headerBelow, List.reverse_append, List.reverse_singleton, List.singleton_append,
    List.findSome?_cons]
  cases Line.header? t <;> rfl

theorem headerBelow_header (read : Line.parse t = .ok (.header pattern)) (above : List Text) :
    headerBelow (above ++ [t]) = some pattern := by
  rw [headerBelow_concat, Line.header?_of_header read, Option.some_or]

theorem headerBelow_plain (plain : ∀ t ∈ block, Line.Plain t) (above : List Text) :
    headerBelow (above ++ block) = headerBelow above := by
  induction block generalizing above with
  | nil => rw [List.append_nil]
  | cons t block ih =>
    obtain ⟨first, others⟩ := List.forall_mem_cons.1 plain
    rw [List.append_cons, ih others, headerBelow_concat, first.header?, Option.none_or]

theorem settingIn_of_pair {key value : Text} (under : headerBelow above = some pattern)
    (read : Line.parse t = .ok (.pair key value)) :
    settingIn above t = some ⟨pattern, key, value, above.length + 1⟩ := by
  rw [settingIn, under, Line.pair?, read]

theorem settingIn_of_blank (read : Line.parse t = .ok .blank) (above : List Text) :
    settingIn above t = none := by
  rw [settingIn, Line.pair?, read]
  cases headerBelow above <;> rfl

theorem settingIn_of_header (read : Line.parse t = .ok (.header pattern)) (above : List Text) :
    settingIn above t = none := by
  rw [settingIn, Line.pair?, read]
  cases headerBelow above <;> rfl

theorem settingIn_of_preamble (none : headerBelow above = none) (t : Text) :
    settingIn above t = Option.none := by
  rw [settingIn, none]

theorem settingsBelow_cons (above : List Text) (t : Text) (rest : List Text) :
    settingsBelow above (t :: rest) = (settingIn above t).toList ++ settingsBelow (above ++ [t]) rest :=
  rfl

theorem settingsBelow_append (above block rest : List Text) :
    settingsBelow above (block ++ rest) =
      settingsBelow above block ++ settingsBelow (above ++ block) rest := by
  induction block generalizing above with
  | nil => simp [settingsBelow]
  | cons t block ih =>
    rw [List.cons_append, settingsBelow_cons, settingsBelow_cons, ih, List.append_assoc,
      List.append_assoc, List.singleton_append]

theorem settingsBelow_cons_of_header (read : Line.parse t = .ok (.header pattern)) (above rest : List Text) :
    settingsBelow above (t :: rest) = settingsBelow (above ++ [t]) rest := by
  rw [settingsBelow_cons, settingIn_of_header read]
  rfl

theorem exists_of_mem_settingsBelow {s : Setting} {lines : List Text} (h : s ∈ settingsBelow above lines) :
    ∃ done t rest, lines = done ++ t :: rest ∧ settingIn (above ++ done) t = some s := by
  induction lines generalizing above with
  | nil => cases h
  | cons t rest ih =>
    rcases List.mem_append.1 h with here | later
    · refine ⟨[], t, rest, rfl, ?_⟩
      rw [List.append_nil]
      exact Option.mem_toList.1 here
    · obtain ⟨done, u, more, rfl, found⟩ := ih later
      refine ⟨t :: done, u, more, rfl, ?_⟩
      rwa [List.append_cons]

/-- Plain lines are under the header above them. -/
theorem pattern_of_mem_settingsBelow (under : headerBelow above = some pattern)
    (plain : ∀ t ∈ block, Line.Plain t) {s : Setting} (h : s ∈ settingsBelow above block) :
    s.pattern = pattern := by
  obtain ⟨done, t, rest, rfl, found⟩ := exists_of_mem_settingsBelow h
  have before : ∀ t ∈ done, Line.Plain t := fun t member => plain t (List.mem_append_left _ member)
  rw [settingIn, headerBelow_plain before, under] at found
  cases read : Line.pair? t with
  | none => simp [read] at found
  | some pair =>
    simp only [read, Option.some.injEq] at found
    rw [← found]

theorem exists_pair_of_mem_settingsBelow {s : Setting} {lines : List Text}
    (h : s ∈ settingsBelow above lines) : ∃ t ∈ lines, Line.parse t = .ok (.pair s.key s.value) := by
  obtain ⟨done, t, rest, rfl, found⟩ := exists_of_mem_settingsBelow h
  refine ⟨t, List.mem_append_cons_self, ?_⟩
  rw [settingIn] at found
  split at found
  next key value _ pair =>
    cases found
    rw [Line.pair?] at pair
    split at pair
    next read =>
      cases pair
      exact read
    · cases pair
  · cases found

theorem value_of_mem_settingsBelow {s : Setting} {lines : List Text}
    (h : s ∈ settingsBelow above lines) : s.value ≠ [] := by
  obtain ⟨_, _, read⟩ := exists_pair_of_mem_settingsBelow h
  exact (Line.isPair_of_parse read).2.1.ne

end Settings

end EditorSettings
