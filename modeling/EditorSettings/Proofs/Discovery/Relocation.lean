import Mathlib.Data.List.Forall2
import EditorSettings.Proofs.Discovery.Layers
import EditorSettings.Proofs.Document.Sources

/-! # Moving a root to another directory

With a root in a directory, the settings of a target below it do not depend on where the directory is
(`settings_move_with_root`).  The files that are found are at the same places below the directory, they
have the same texts, and each sees the target from where it is itself.
-/

namespace EditorSettings

/-! ## Paths below a directory -/

namespace Path

variable {p q r : Path}

theorem join_assoc (p q r : Path) : (p.join q).join r = p.join (q.join r) := by
  by_cases absolute : r.isAbsolute
  · rw [join_of_isAbsolute absolute, join_of_isAbsolute absolute, join_of_isAbsolute absolute]
  by_cases middle : q.isAbsolute
  · have joined : (q.join r).isAbsolute := by
      rw [join, if_neg absolute]
      exact middle
    rw [join_of_isAbsolute middle, join_of_isAbsolute joined]
  · have joined : ¬ (q.join r).isAbsolute := by
      rw [join, if_neg absolute]
      exact middle
    rw [join, if_neg absolute, join, if_neg middle, join, if_neg joined, join, if_neg absolute,
      List.append_assoc]

theorem join_relative (p : Path) (names : List Text) :
    p.join ⟨.relative, names⟩ = ⟨p.anchor, p.names ++ names⟩ := rfl

theorem parent_join_name (p : Path) (n : Text) : (p.join ⟨.relative, [n]⟩).parent = p := by
  rw [join_relative, parent, List.dropLast_concat]

theorem ancestorsOf_append {anchor : Anchor} {n : Nat} {names : List Text} (h : n ≤ names.length)
    (more : List Text) : ancestorsOf anchor n (names ++ more) = ancestorsOf anchor n names := by
  induction n with
  | zero => rfl
  | succ n ih =>
    have le := Nat.le_of_succ_le h
    rw [ancestorsOf, ancestorsOf, ih le, List.take_append_of_le_length le]

theorem mem_ancestors_iff :
    q ∈ p.ancestors ↔ ∃ k < p.names.length, q = ⟨p.anchor, p.names.take k⟩ := by
  have below (n : Nat) :
      q ∈ ancestorsOf p.anchor n p.names ↔ ∃ k < n, q = ⟨p.anchor, p.names.take k⟩ := by
    induction n with
    | zero => simp [ancestorsOf]
    | succ n ih =>
      rw [ancestorsOf, List.mem_cons, ih, Nat.exists_lt_succ_right, or_comm]
  exact below _

theorem start_mem_ancestors {names : List Text} (ne : names ≠ []) :
    ⟨.relative, []⟩ ∈ Path.ancestors ⟨.relative, names⟩ :=
  mem_ancestors_iff.2 ⟨0, List.length_pos_of_ne_nil ne, rfl⟩

theorem exists_join_of_mem_ancestors (h : q ∈ p.ancestors) :
    ∃ rest, rest ≠ [] ∧ q.join ⟨.relative, rest⟩ = p := by
  obtain ⟨k, lt, rfl⟩ := mem_ancestors_iff.1 h
  refine ⟨p.names.drop k, by simpa using lt, ?_⟩
  rw [join_relative, List.take_append_drop]

/-- The directories above a path that is joined to a directory: those of the path, joined, and those of
the directory. -/
theorem ancestors_join (p : Path) (names : List Text) :
    (p.join ⟨.relative, names⟩).ancestors =
      (Path.ancestors ⟨.relative, names⟩).map p.join ++ p.ancestors := by
  have above (k : Nat) : ancestorsOf p.anchor (p.names.length + k) (p.names ++ names) =
      (ancestorsOf .relative k names).map p.join ++ ancestorsOf p.anchor p.names.length p.names := by
    induction k with
    | zero => exact ancestorsOf_append (Nat.le_refl _) names
    | succ k ih =>
      rw [← Nat.add_assoc, ancestorsOf, ancestorsOf, ih, List.take_length_add_append, List.map_cons,
        join_relative]
      rfl
  rw [join_relative, ancestors, List.length_append]
  exact above names.length

end Path

/-! ## Files that were moved -/

/-- Both are answers that are related, or both are failures that differ in the path at most. -/
inductive Alike {α β : Type} (R : α → β → Prop) : Except Failure α → Except Failure β → Prop
  | ok {a : α} {b : β} (related : R a b) : Alike R (.ok a) (.ok b)
  | error {e e' : Failure} (same : e.unplaced = e'.unplaced) : Alike R (.error e) (.error e')

theorem Alike.map {α β γ δ : Type} {R : α → β → Prop} {S : γ → δ → Prop} {f : α → γ} {g : β → δ}
    {x : Except Failure α} {y : Except Failure β} (h : Alike R x y)
    (step : ∀ {a b}, R a b → S (f a) (g b)) : Alike S (x.map f) (y.map g) := by
  cases h with
  | ok related => exact .ok (step related)
  | error same => exact .error same

/-- Files with one text at the same place below two directories, on the way to a target. -/
structure Moved (d d' target name : Path) (f f' : SettingsFile) : Prop where
  place : ∃ q ∈ target.ancestors, f.path = d.join (q.join name) ∧ f'.path = d'.join (q.join name)
  reader : f.reader.unplaced = f'.reader.unplaced

section Moving

variable {fs fs' : FileSystem} {c c' d d' name : Path} {names : List Text} {n : Text}

theorem load_moved (same : fs.read c = fs'.read c') :
    (∃ f, SettingsFile.load fs c = .error (.unreadable f c) ∧
      SettingsFile.load fs' c' = .error (.unreadable f c')) ∨
    (∃ e e', SettingsFile.load fs c = .error (.malformed e) ∧
      SettingsFile.load fs' c' = .error (.malformed e') ∧ e.unplaced = e'.unplaced) ∨
    ∃ r r', SettingsFile.load fs c = .ok ⟨c, r⟩ ∧ SettingsFile.load fs' c' = .ok ⟨c', r'⟩ ∧
      r.unplaced = r'.unplaced := by
  rw [SettingsFile.load, SettingsFile.load, ← same]
  cases fs.read c with
  | error f => exact .inl ⟨f, rfl, rfl⟩
  | ok bytes =>
    dsimp only [SettingsFile.ofBytes]
    cases Encoding.decode bytes with
    | error reason => exact .inr (.inl ⟨_, _, rfl, rfl, rfl⟩)
    | ok t =>
      have alike := (Reader.ofText_unplaced (some c) t).symm.trans (Reader.ofText_unplaced (some c') t)
      dsimp only
      cases here : Reader.ofText (some c) t with
      | error e =>
        cases there : Reader.ofText (some c') t with
        | error e' =>
          rw [here, there] at alike
          exact .inr (.inl ⟨e, e', rfl, rfl, Except.error.inj alike⟩)
        | ok r' =>
          rw [here, there] at alike
          cases alike
      | ok r =>
        cases there : Reader.ofText (some c') t with
        | error e' =>
          rw [here, there] at alike
          cases alike
        | ok r' =>
          rw [here, there] at alike
          exact .inr (.inr ⟨r, r', rfl, rfl, Except.ok.inj alike⟩)

theorem opensAsRoot_moved (same : fs.read c = fs'.read c') : opensAsRoot fs c = opensAsRoot fs' c' := by
  rw [opensAsRoot, opensAsRoot, opened?, opened?]
  obtain ⟨f, loaded, loaded'⟩ | ⟨e, e', loaded, loaded', _⟩ | ⟨r, r', loaded, loaded', unplaced⟩ :=
    load_moved same
  · rw [loaded, loaded']
    rfl
  · rw [loaded, loaded']
    rfl
  · rw [loaded, loaded']
    exact (congrArg Reader.isRoot unplaced : r.unplaced.isRoot = r'.unplaced.isRoot)

/-- The search finds the same files below both directories, or fails in the same way. -/
theorem collect_moved {target : Path} {qs : List Path} (above : ∀ q ∈ qs, q ∈ target.ancestors)
    (same : ∀ q ∈ qs, fs.read (d.join (q.join name)) = fs'.read (d'.join (q.join name))) :
    Alike (List.Forall₂ (Moved d d' target name)) (collect fs (qs.map fun q => d.join (q.join name)))
      (collect fs' (qs.map fun q => d'.join (q.join name))) := by
  induction qs with
  | nil => exact .ok .nil
  | cons q qs ih =>
    obtain ⟨here, others⟩ := List.forall_mem_cons.1 above
    obtain ⟨read, reads⟩ := List.forall_mem_cons.1 same
    rw [List.map_cons, List.map_cons]
    obtain ⟨f, loaded, loaded'⟩ | ⟨e, e', loaded, loaded', unplaced⟩ |
        ⟨r, r', loaded, loaded', unplaced⟩ := load_moved read
    · rw [collect_cons_of_unreadable loaded, collect_cons_of_unreadable loaded']
      exact ih others reads
    · rw [collect_cons_of_malformed loaded, collect_cons_of_malformed loaded']
      exact .error (congrArg Failure.malformed unplaced)
    · have moved : Moved d d' target name ⟨d.join (q.join name), r⟩ ⟨d'.join (q.join name), r'⟩ :=
        ⟨⟨q, here, rfl, rfl⟩, unplaced⟩
      have isRoot : r.unplaced.isRoot = r'.unplaced.isRoot := congrArg Reader.isRoot unplaced
      cases root : r.isRoot with
      | true =>
        rw [collect_cons_of_root loaded root, collect_cons_of_root loaded' (isRoot.symm.trans root)]
        exact .ok (.cons moved .nil)
      | false =>
        rw [collect_cons_of_inner loaded root, collect_cons_of_inner loaded' (isRoot.symm.trans root)]
        exact (ih others reads).map fun outer => List.rel_append outer (.cons moved .nil)

theorem view_below {f : SettingsFile} {target q : Path} {rest : List Text}
    (path : f.path = d.join (q.join ⟨.relative, [n]⟩)) (leads : q.join ⟨.relative, rest⟩ = target) :
    f.view (d.join target) = ⟨.relative, rest⟩ := by
  rw [SettingsFile.view, path, ← Path.join_assoc, Path.parent_join_name, ← leads, ← Path.join_assoc,
    Path.relativeTo?_join rfl]
  rfl

theorem Moved.view {target : Path} {f f' : SettingsFile} (h : Moved d d' target ⟨.relative, [n]⟩ f f') :
    f.view (d.join target) = f'.view (d'.join target) := by
  obtain ⟨q, above, path, path'⟩ := h.place
  obtain ⟨rest, _, leads⟩ := Path.exists_join_of_mem_ancestors above
  rw [view_below path leads, view_below path' leads]

/-- Files that were moved set the same texts, and fail in the same way. -/
theorem applyAll_moved {target : Path} {files files' : List SettingsFile}
    (moved : List.Forall₂ (Moved d d' target ⟨.relative, [n]⟩) files files') {props props' : Properties}
    (same : props.unplaced = props'.unplaced) :
    (SettingsFile.applyAll (d.join target) files props).props.unplaced =
        (SettingsFile.applyAll (d'.join target) files' props').props.unplaced ∧
      (SettingsFile.applyAll (d.join target) files props).failure.map Failure.unplaced =
        (SettingsFile.applyAll (d'.join target) files' props').failure.map Failure.unplaced := by
  induction moved generalizing props props' with
  | nil => exact ⟨same, rfl⟩
  | @cons f f' files files' first _ ih =>
    have applied : (f.reader.applyTo (f.view (d.join target)).components props).unplaced =
        (f'.reader.applyTo (f'.view (d'.join target)).components props').unplaced := by
      rw [Reader.applyTo_unplaced, Reader.applyTo_unplaced, first.view, first.reader, same]
    have failure : f.reader.failure?.map Failure.unplaced = f'.reader.failure?.map Failure.unplaced := by
      rw [← Reader.failure?_unplaced, ← Reader.failure?_unplaced, first.reader]
    rw [SettingsFile.applyAll, SettingsFile.applyAll, SettingsFile.applyTo, SettingsFile.applyTo]
    cases here : f.reader.failure? with
    | none =>
      cases there : f'.reader.failure? with
      | none => exact ih applied
      | some e' =>
        rw [here, there] at failure
        cases failure
    | some e =>
      cases there : f'.reader.failure? with
      | none =>
        rw [here, there] at failure
        cases failure
      | some e' =>
        rw [here, there] at failure
        exact ⟨applied, failure⟩

theorem absolute_join (absolute : d.isAbsolute) (names : List Text) :
    fs.absolute (d.join ⟨.relative, names⟩) = d.join ⟨.relative, names⟩ :=
  Path.join_of_isAbsolute (by rw [Path.join_relative]; exact absolute)

/-- With a root in a directory, the search for a target below it does not leave the directory. -/
theorem settingsFiles_below_root (absolute : d.isAbsolute) (ne : names ≠ [])
    (root : opensAsRoot fs (d.join ⟨.relative, [n]⟩) = true) :
    settingsFiles fs (d.join ⟨.relative, names⟩) ⟨.relative, [n]⟩ =
      collect fs
        ((Path.ancestors ⟨.relative, names⟩).map fun q => d.join (q.join ⟨.relative, [n]⟩)) := by
  have tried : candidates fs (d.join ⟨.relative, names⟩) ⟨.relative, [n]⟩ =
      ((Path.ancestors ⟨.relative, names⟩).map fun q => d.join (q.join ⟨.relative, [n]⟩)) ++
        d.ancestors.map (·.join ⟨.relative, [n]⟩) := by
    rw [candidates, absolute_join absolute, Path.ancestors_join, List.map_append, List.map_map]
    simp only [Function.comp_def, Path.join_assoc]
  -- the root is the last of the candidates below the directory
  have stops : ∃ c ∈ (Path.ancestors ⟨.relative, names⟩).map fun q => d.join (q.join ⟨.relative, [n]⟩),
      opensAsRoot fs c = true :=
    ⟨_, List.mem_map_of_mem (Path.start_mem_ancestors ne), root⟩
  have relative : ¬ (⟨.relative, [n]⟩ : Path).isAbsolute := by simp [Path.isAbsolute]
  rw [settingsFiles_of_relative relative, tried, collect_eq, collect_eq, upToRoot_append stops]

theorem settingsFor_moved (absolute : d.isAbsolute) (absolute' : d'.isAbsolute) (legacy : Bool)
    (found : Alike (List.Forall₂ (Moved d d' ⟨.relative, names⟩ ⟨.relative, [n]⟩))
      (settingsFiles fs (d.join ⟨.relative, names⟩) ⟨.relative, [n]⟩)
      (settingsFiles fs' (d'.join ⟨.relative, names⟩) ⟨.relative, [n]⟩)) :
    Alike (fun props props' => props.texts = props'.texts)
      (settingsFor fs (d.join ⟨.relative, names⟩) ⟨.relative, [n]⟩ legacy)
      (settingsFor fs' (d'.join ⟨.relative, names⟩) ⟨.relative, [n]⟩ legacy) := by
  rw [settingsFor, settingsFor]
  generalize settingsFiles fs (d.join ⟨.relative, names⟩) ⟨.relative, [n]⟩ = files at found ⊢
  generalize settingsFiles fs' (d'.join ⟨.relative, names⟩) ⟨.relative, [n]⟩ = files' at found ⊢
  cases found with
  | error same => exact .error same
  | @ok files files' moved =>
    dsimp only
    rw [applyFiles, applyFiles, absolute_join absolute, absolute_join absolute']
    obtain ⟨applied, failure⟩ := applyAll_moved moved (rfl : Properties.empty.unplaced = _)
    generalize SettingsFile.applyAll (d.join ⟨.relative, names⟩) files .empty = a at applied failure ⊢
    generalize SettingsFile.applyAll (d'.join ⟨.relative, names⟩) files' .empty = a' at applied failure ⊢
    obtain ⟨props, _ | e⟩ := a <;> obtain ⟨props', _ | e'⟩ := a'
    · refine .ok ?_
      rw [← Properties.texts_unplaced, Properties.useFallbacks_unplaced, applied,
        ← Properties.useFallbacks_unplaced, Properties.texts_unplaced]
    · cases failure
    · cases failure
    · exact .error (Option.some.inj failure)

end Moving

/-- With a root in a directory, the settings of a target below it are the same wherever the directory is,
if it holds the same files.  A file that is found sees no more of the target than what is below it. -/
theorem settings_move_with_root {fs fs' : FileSystem} {d d' : Path} {names : List Text} {n : Text}
    (absolute : d.isAbsolute) (absolute' : d'.isAbsolute) (ne : names ≠ [])
    (same : ∀ q ∈ Path.ancestors ⟨.relative, names⟩,
      fs.read (d.join (q.join ⟨.relative, [n]⟩)) = fs'.read (d'.join (q.join ⟨.relative, [n]⟩)))
    (root : opensAsRoot fs (d.join ⟨.relative, [n]⟩) = true) (legacy : Bool) :
    Alike (fun props props' => props.texts = props'.texts)
        (settingsFor fs (d.join ⟨.relative, names⟩) ⟨.relative, [n]⟩ legacy)
        (settingsFor fs' (d'.join ⟨.relative, names⟩) ⟨.relative, [n]⟩ legacy) ∧
      ∀ files, settingsFiles fs (d.join ⟨.relative, names⟩) ⟨.relative, [n]⟩ = .ok files →
        ∀ f ∈ files, ∃ above rest, above ++ rest = names ∧
          f.path = d.join ⟨.relative, above ++ [n]⟩ ∧
          f.view (fs.absolute (d.join ⟨.relative, names⟩)) = ⟨.relative, rest⟩ := by
  have root' : opensAsRoot fs' (d'.join ⟨.relative, [n]⟩) = true :=
    (opensAsRoot_moved (same _ (Path.start_mem_ancestors ne))).symm.trans root
  have below := settingsFiles_below_root absolute ne root
  have below' := settingsFiles_below_root absolute' ne root'
  constructor
  · apply settingsFor_moved absolute absolute' legacy
    rw [below, below']
    exact collect_moved (fun _ above => above) same
  · intro files found f member
    rw [below] at found
    obtain ⟨q, above, path⟩ := List.mem_map.1 (path_mem_of_collect found member)
    obtain ⟨rest, _, leads⟩ := Path.exists_join_of_mem_ancestors above
    obtain ⟨k, _, rfl⟩ := Path.mem_ancestors_iff.1 above
    rw [absolute_join absolute]
    exact ⟨_, rest, (Path.mk.inj leads).2, path.symm, view_below path.symm leads⟩

/-- A root in a directory, whose header is anchored there. -/
def rootIn (d : Path) : FileSystem where
  cwd := ⟨.root, []⟩
  read p :=
    if p = d.join ⟨.relative, [['s']]⟩ then .ok (Utf8.encode "root=true\n[/b/*]\nk=1".toList)
    else .error .noSuchFile

theorem settings_move_with_root_deeper :
    let d : Path := ⟨.root, [['a']]⟩
    let d' : Path := ⟨.root, [['x'], ['y']]⟩
    opensAsRoot (rootIn d) ⟨.root, [['a'], ['s']]⟩ = true ∧
      Alike (fun props props' => props.texts = props'.texts)
        (settingsFor (rootIn d) ⟨.root, [['a'], ['b'], ['c']]⟩ ⟨.relative, [['s']]⟩ false)
        (settingsFor (rootIn d') ⟨.root, [['x'], ['y'], ['b'], ['c']]⟩ ⟨.relative, [['s']]⟩ false) := by
  intro d d'
  have loaded : SettingsFile.load (rootIn d) ⟨.root, [['a'], ['s']]⟩ = .ok ⟨⟨.root, [['a'], ['s']]⟩,
      ⟨some ⟨.root, [['a'], ['s']]⟩, true, some "/b/*".toList, ["k=1".toList], 2⟩⟩ := by
    decide +kernel
  have root : opensAsRoot (rootIn d) ⟨.root, [['a'], ['s']]⟩ = true := opensAsRoot_of_load loaded
  have same : ∀ q ∈ Path.ancestors ⟨.relative, [['b'], ['c']]⟩,
      (rootIn d).read (d.join (q.join ⟨.relative, [['s']]⟩)) =
        (rootIn d').read (d'.join (q.join ⟨.relative, [['s']]⟩)) := by
    have above : Path.ancestors ⟨.relative, [['b'], ['c']]⟩ =
        [⟨.relative, [['b']]⟩, ⟨.relative, []⟩] := rfl
    rw [above]
    exact List.forall_mem_cons.2 ⟨rfl, List.forall_mem_singleton.2 rfl⟩
  exact ⟨root, (settings_move_with_root (by decide) (by decide) (by decide) same root false).1⟩

end EditorSettings
