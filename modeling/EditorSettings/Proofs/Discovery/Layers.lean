import EditorSettings.Proofs.Discovery.Candidates
import EditorSettings.Proofs.Document.Reading

/-! # What settings come from

The properties of a target are what the settings say that apply to it, those of the farthest file first
and those of a file in the order of its lines.  The last setting of a key wins, and the value tells in
which file and line it stands (`last_setting_wins`).
-/

namespace EditorSettings

/-- The lines of the file at a path; none if it cannot be read. -/
def linesOf (fs : FileSystem) (path : Path) : List Text :=
  match fs.read path with
  | .error _ => []
  | .ok bytes =>
    match Encoding.decode bytes with
    | .error _ => []
    | .ok t => Text.lines t

/-- What a file sets for a target: the keys and values of the settings whose headers match the target as
the file sees it. -/
def SettingsFile.layer (fs : FileSystem) (target : Path) (f : SettingsFile) : List (Text × Value) :=
  ((settingsBelow [] (linesOf fs f.path)).filter
    (Setting.appliesTo (f.view (fs.absolute target)).components)).map (Setting.entry (some f.path))

section Layers

variable {fs : FileSystem} {target name : Path} {files : List SettingsFile} {f : SettingsFile}

theorem load_ok {c : Path} (loaded : SettingsFile.load fs c = .ok f) :
    f.path = c ∧ Reader.ofLines (some c) (linesOf fs c) = .ok f.reader := by
  rw [SettingsFile.load] at loaded
  rw [linesOf]
  cases read : fs.read c with
  | error _ =>
    rw [read] at loaded
    cases loaded
  | ok bytes =>
    simp only [read, SettingsFile.ofBytes] at loaded
    cases decoded : Encoding.decode bytes with
    | error _ =>
      simp only [decoded] at loaded
      cases loaded
    | ok t =>
      simp only [decoded] at loaded ⊢
      cases opened : Reader.ofText (some c) t with
      | error _ =>
        simp only [opened] at loaded
        cases loaded
      | ok reader =>
        simp only [opened] at loaded
        cases loaded
        exact ⟨rfl, opened⟩

theorem path_of_opened? {c : Path} (opened : opened? fs c = some f) : f.path = c :=
  (load_ok (load_of_opened? opened)).1

theorem sublist_filterMap_opened? (fs : FileSystem) (cs : List Path) :
    ((cs.filterMap (opened? fs)).map SettingsFile.path).Sublist cs := by
  induction cs with
  | nil => exact .slnil
  | cons c cs ih =>
    cases opened : opened? fs c with
    | none =>
      rw [List.filterMap_cons_none opened]
      exact ih.cons c
    | some f =>
      rw [List.filterMap_cons_some opened, List.map_cons, path_of_opened? opened]
      exact ih.cons_cons c

theorem files_of_collect {cs : List Path} (found : collect fs cs = .ok files) :
    (files.map SettingsFile.path).Sublist cs.reverse ∧
      ∀ f ∈ files, SettingsFile.load fs f.path = .ok f := by
  rw [collect_eq] at found
  split at found
  · cases found
  · cases found
    constructor
    · rw [List.map_reverse]
      exact ((sublist_filterMap_opened? fs _).trans (List.take_sublist _ _)).reverse
    · intro f member
      obtain ⟨c, _, opened⟩ := List.mem_filterMap.1 (List.mem_reverse.1 member)
      rw [path_of_opened? opened]
      exact load_of_opened? opened

theorem path_mem_of_collect {cs : List Path} (found : collect fs cs = .ok files) (member : f ∈ files) :
    f.path ∈ cs :=
  List.mem_reverse.1 ((files_of_collect found).1.subset (List.mem_map_of_mem member))

theorem files_of_settingsFiles (found : settingsFiles fs target name = .ok files) :
    (files.map SettingsFile.path).Sublist
        (if name.isAbsolute then [name] else (candidates fs target name).reverse) ∧
      ∀ f ∈ files, SettingsFile.load fs f.path = .ok f := by
  by_cases absolute : name.isAbsolute
  · rw [settingsFiles, if_pos absolute] at found
    rw [if_pos absolute]
    cases loaded : SettingsFile.load fs name with
    | error e =>
      simp only [loaded] at found
      cases found
    | ok file =>
      simp only [loaded] at found
      cases found
      obtain ⟨rfl, _⟩ := load_ok loaded
      exact ⟨List.Sublist.refl _, by simpa using loaded⟩
  · rw [settingsFiles_of_relative absolute] at found
    rw [if_neg absolute]
    exact files_of_collect found

/-- Files that are applied without a failure set their layers one after the other. -/
theorem applyAll_of_complete (loaded : ∀ f ∈ files, SettingsFile.load fs f.path = .ok f)
    {props props' : Properties}
    (applied : SettingsFile.applyAll (fs.absolute target) files props = ⟨props', none⟩) :
    props' = props.setAll (files.flatMap (SettingsFile.layer fs target)) := by
  induction files generalizing props with
  | nil =>
    cases applied
    rfl
  | cons f files ih =>
    obtain ⟨first, others⟩ := List.forall_mem_cons.1 loaded
    rw [SettingsFile.applyAll, SettingsFile.applyTo] at applied
    cases complete : f.reader.failure? with
    | some e =>
      simp only [complete] at applied
      cases applied
    | none =>
      simp only [complete] at applied
      rw [ih others applied, Reader.applyTo_of_ofLines (load_ok first).2 complete, List.flatMap_cons,
        Properties.setAll_append]
      rfl

end Layers

/-- Of all that the files say that apply to a target, from the farthest candidate to the nearest, the last
setting of a key wins. -/
theorem last_setting_wins {fs : FileSystem} {target name : Path} {files : List SettingsFile}
    {props : Properties} (found : settingsFiles fs target name = .ok files)
    (applied : applyFiles fs target files .empty = ⟨props, none⟩) :
    (files.map SettingsFile.path).Sublist
        (if name.isAbsolute then [name] else (candidates fs target name).reverse) ∧
      props.LastWins (files.flatMap (SettingsFile.layer fs target)) := by
  obtain ⟨order, loaded⟩ := files_of_settingsFiles found
  refine ⟨order, ?_⟩
  rw [applyAll_of_complete loaded applied]
  exact Properties.lastWins_ofList _

/-- A file at the root, and one in `/a` that sets one of its keys again. -/
def twoLayers : FileSystem where
  cwd := ⟨.root, []⟩
  read p :=
    if p = ⟨.root, [['s']]⟩ then .ok (Utf8.encode "[*]\nk=1\nj=2".toList)
    else if p = ⟨.root, [['a'], ['s']]⟩ then .ok (Utf8.encode "[b]\nK=3".toList)
    else .error .noSuchFile

theorem last_setting_wins_twoLayers :
    let near : Path := ⟨.root, [['a'], ['s']]⟩
    let far : Path := ⟨.root, [['s']]⟩
    ∃ files props, settingsFiles twoLayers ⟨.root, [['a'], ['b']]⟩ ⟨.relative, [['s']]⟩ = .ok files ∧
      applyFiles twoLayers ⟨.root, [['a'], ['b']]⟩ files .empty = ⟨props, none⟩ ∧
      files.map SettingsFile.path = [far, near] ∧ props.keys = [['k'], ['j']] ∧
      props.find? ['k'] = some ⟨['3'], some ⟨near, 2⟩⟩ ∧
      props.find? ['j'] = some ⟨['2'], some ⟨far, 3⟩⟩ := by
  intro near far
  let outer : Reader := ⟨some far, false, some ['*'], ["k=1".toList, "j=2".toList], 1⟩
  let inner : Reader := ⟨some near, false, some ['b'], ["K=3".toList], 1⟩
  have found : settingsFiles twoLayers ⟨.root, [['a'], ['b']]⟩ ⟨.relative, [['s']]⟩ =
      .ok [⟨far, outer⟩, ⟨near, inner⟩] := by
    decide +kernel
  let all : Section := ⟨['*'], ⟨Symbol.ofText ['*'], [.boundary, .run false], 512⟩, .empty⟩
  let one : Section := ⟨['b'], ⟨Symbol.ofText ['b'], [.boundary, .symbol (.scalar 'b')], 512⟩, .empty⟩
  have allMade : Section.ofPattern ['*'] = .ok all := Section.ofPattern_of_compile (by decide +kernel)
  have oneMade : Section.ofPattern ['b'] = .ok one := Section.ofPattern_of_compile (by decide +kernel)
  have outerComplete : outer.failure? = none := by
    have called : outer.next = some
        (.ok ((all.insert ['k'] ⟨['1'], some ⟨far, 2⟩⟩).insert ['j'] ⟨['2'], some ⟨far, 3⟩⟩),
          ⟨some far, false, none, [], 3⟩) :=
      Reader.next_eq_ok_iff.2 ⟨['*'], all, rfl, allMade, rfl⟩
    rw [Reader.failure?_of_ok called, Reader.failure?_of_none (Reader.next_eq_none_iff.2 rfl)]
  have innerComplete : inner.failure? = none := by
    have called : inner.next = some
        (.ok (one.insert ['K'] ⟨['3'], some ⟨near, 2⟩⟩), ⟨some near, false, none, [], 2⟩) :=
      Reader.next_eq_ok_iff.2 ⟨['b'], one, rfl, oneMade, rfl⟩
    rw [Reader.failure?_of_ok called, Reader.failure?_of_none (Reader.next_eq_none_iff.2 rfl)]
  obtain ⟨props, applied⟩ : ∃ props, applyFiles twoLayers ⟨.root, [['a'], ['b']]⟩
      [⟨far, outer⟩, ⟨near, inner⟩] .empty = ⟨props, none⟩ := by
    simp only [applyFiles, SettingsFile.applyAll, SettingsFile.applyTo, outerComplete, innerComplete]
    exact ⟨_, rfl⟩
  have outerLayer : SettingsFile.layer twoLayers ⟨.root, [['a'], ['b']]⟩ ⟨far, outer⟩ =
      [(['k'], ⟨['1'], some ⟨far, 2⟩⟩), (['j'], ⟨['2'], some ⟨far, 3⟩⟩)] := by
    let settings : List Setting := [⟨['*'], ['k'], ['1'], 2⟩, ⟨['*'], ['j'], ['2'], 3⟩]
    have read : settingsBelow [] (linesOf twoLayers far) = settings := by
      decide +kernel
    have matched : settings.filter (Setting.appliesTo [[97], [98]]) = settings := by
      cbv
    rw [SettingsFile.layer, read]
    exact congrArg (List.map (Setting.entry (some far))) matched
  have innerLayer : SettingsFile.layer twoLayers ⟨.root, [['a'], ['b']]⟩ ⟨near, inner⟩ =
      [(['k'], ⟨['3'], some ⟨near, 2⟩⟩)] := by
    decide +kernel
  have layers : [⟨far, outer⟩, ⟨near, inner⟩].flatMap (SettingsFile.layer twoLayers ⟨.root, [['a'], ['b']]⟩) =
      [(['k'], ⟨['1'], some ⟨far, 2⟩⟩), (['j'], ⟨['2'], some ⟨far, 3⟩⟩),
        (['k'], ⟨['3'], some ⟨near, 2⟩⟩)] := by
    rw [List.flatMap_cons, List.flatMap_singleton, outerLayer, innerLayer]
    rfl
  obtain ⟨_, wins⟩ := last_setting_wins found applied
  refine ⟨_, props, found, applied, rfl, ?_, ?_, ?_⟩
  · rw [wins.keys, layers]
    rfl
  · rw [wins.find?, layers]
    rfl
  · rw [wins.find?, layers]
    rfl

end EditorSettings
