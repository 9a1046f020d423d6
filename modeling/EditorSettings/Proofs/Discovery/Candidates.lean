import Mathlib.Control.Monad.Basic
import EditorSettings.Discovery

/-! # Where the search for settings ends

The candidates for a target are tried up to the first that is a root, and no further.  So nothing above
a root decides anything: neither what a file there says nor whether it can be read.
-/

namespace EditorSettings

/-! ## Loading -/

def opened? (fs : FileSystem) (candidate : Path) : Option SettingsFile :=
  (SettingsFile.load fs candidate).toOption

/-- What is malformed in the file at a path, if it can be read and something is. -/
def fault? (fs : FileSystem) (candidate : Path) : Option ParseError :=
  match SettingsFile.load fs candidate with
  | .error (.malformed e) => some e
  | _ => none

def opensAsRoot (fs : FileSystem) (candidate : Path) : Bool :=
  (opened? fs candidate).any SettingsFile.isRoot

/-- The candidates up to the first that is a root. -/
def upToRoot (fs : FileSystem) (candidates : List Path) : List Path :=
  candidates.take (candidates.findIdx (opensAsRoot fs) + 1)

def searched (fs : FileSystem) (target name : Path) : List Path :=
  upToRoot fs (candidates fs target name)

section Loading

variable {fs fs' : FileSystem} {c : Path} {cs : List Path} {file : SettingsFile}

theorem load_cases (fs : FileSystem) (c : Path) :
    (∃ f, SettingsFile.load fs c = .error (.unreadable f c)) ∨
      (∃ e, SettingsFile.load fs c = .error (.malformed e)) ∨
      ∃ file, SettingsFile.load fs c = .ok file := by
  rw [SettingsFile.load]
  cases fs.read c with
  | error f => exact .inl ⟨f, rfl⟩
  | ok bytes =>
    dsimp only
    cases SettingsFile.ofBytes c bytes with
    | error e => exact .inr (.inl ⟨e, rfl⟩)
    | ok file => exact .inr (.inr ⟨file, rfl⟩)

theorem load_congr (same : fs'.read c = fs.read c) : SettingsFile.load fs' c = SettingsFile.load fs c := by
  rw [SettingsFile.load, SettingsFile.load, same]

theorem opened?_of_load (loaded : SettingsFile.load fs c = .ok file) : opened? fs c = some file := by
  rw [opened?, loaded]
  rfl

theorem load_of_opened? (opened : opened? fs c = some file) : SettingsFile.load fs c = .ok file := by
  rw [opened?] at opened
  cases loaded : SettingsFile.load fs c with
  | error e =>
    rw [loaded] at opened
    cases opened
  | ok file' =>
    rw [loaded] at opened
    cases opened
    rfl

theorem opensAsRoot_of_load (loaded : SettingsFile.load fs c = .ok file) :
    opensAsRoot fs c = file.isRoot := by
  rw [opensAsRoot, opened?_of_load loaded, Option.any_some]

theorem exists_of_opensAsRoot (root : opensAsRoot fs c = true) :
    ∃ file, SettingsFile.load fs c = .ok file ∧ file.isRoot = true := by
  obtain ⟨file, opened, isRoot⟩ := (Option.any_eq_true _ _).1 root
  exact ⟨file, load_of_opened? opened, isRoot⟩

theorem upToRoot_cons_of_root (root : opensAsRoot fs c = true) (cs : List Path) :
    upToRoot fs (c :: cs) = [c] := by
  rw [upToRoot, List.findIdx_cons, root]
  rfl

theorem upToRoot_cons (inner : opensAsRoot fs c = false) (cs : List Path) :
    upToRoot fs (c :: cs) = c :: upToRoot fs cs := by
  rw [upToRoot, List.findIdx_cons, inner]
  rfl

theorem mem_upToRoot_self (fs : FileSystem) (c : Path) (cs : List Path) : c ∈ upToRoot fs (c :: cs) :=
  List.mem_cons_self

theorem upToRoot_append {xs : List Path} (root : ∃ c ∈ xs, opensAsRoot fs c = true) (ys : List Path) :
    upToRoot fs (xs ++ ys) = upToRoot fs xs := by
  have inside : xs.findIdx (opensAsRoot fs) < xs.length := List.findIdx_lt_length.2 root
  rw [upToRoot, upToRoot, List.findIdx_append, if_pos inside, List.take_append_of_le_length inside]

/-! ## Collecting -/

theorem collect_cons_of_unreadable {f : ReadFailure} {path : Path}
    (loaded : SettingsFile.load fs c = .error (.unreadable f path)) (cs : List Path) :
    collect fs (c :: cs) = collect fs cs := by
  rw [collect, loaded]

theorem collect_cons_of_malformed {e : ParseError} (loaded : SettingsFile.load fs c = .error (.malformed e))
    (cs : List Path) : collect fs (c :: cs) = .error (.malformed e) := by
  rw [collect, loaded]

theorem collect_cons_of_root (loaded : SettingsFile.load fs c = .ok file) (root : file.isRoot = true)
    (cs : List Path) : collect fs (c :: cs) = .ok [file] := by
  rw [collect, loaded]
  simp only [root, if_true]

theorem collect_cons_of_inner (loaded : SettingsFile.load fs c = .ok file) (inner : file.isRoot = false)
    (cs : List Path) :
    collect fs (c :: cs) = (collect fs cs).map (· ++ [file]) := by
  rw [collect, loaded]
  simp only [inner, Bool.false_eq_true, if_false]
  cases collect fs cs <;> rfl

/-- The first malformed file that is reached is the failure, and otherwise the files that can be opened
are collected, the farthest first. -/
theorem collect_eq (fs : FileSystem) (cs : List Path) :
    collect fs cs =
      match (upToRoot fs cs).findSome? (fault? fs) with
      | some e => .error (.malformed e)
      | none => .ok ((upToRoot fs cs).filterMap (opened? fs)).reverse := by
  induction cs with
  | nil => rfl
  | cons c cs ih =>
    obtain ⟨f, loaded⟩ | ⟨e, loaded⟩ | ⟨file, loaded⟩ := load_cases fs c
    · have closed : opened? fs c = none := by rw [opened?, loaded]; rfl
      have inner : opensAsRoot fs c = false := by rw [opensAsRoot, closed, Option.any_none]
      have sound : fault? fs c = none := by rw [fault?, loaded]
      rw [collect_cons_of_unreadable loaded, ih, upToRoot_cons inner, List.findSome?_cons, sound,
        List.filterMap_cons, closed]
    · have inner : opensAsRoot fs c = false := by rw [opensAsRoot, opened?, loaded]; rfl
      have malformed : fault? fs c = some e := by rw [fault?, loaded]
      rw [collect_cons_of_malformed loaded, upToRoot_cons inner, List.findSome?_cons, malformed]
    · have sound : fault? fs c = none := by rw [fault?, loaded]
      cases root : file.isRoot with
      | true =>
        rw [collect_cons_of_root loaded root, upToRoot_cons_of_root ((opensAsRoot_of_load loaded).trans root),
          List.findSome?_cons, sound, List.filterMap_cons, opened?_of_load loaded]
        rfl
      | false =>
        rw [collect_cons_of_inner loaded root, ih,
          upToRoot_cons ((opensAsRoot_of_load loaded).trans root), List.findSome?_cons, sound,
          List.filterMap_cons, opened?_of_load loaded]
        cases (upToRoot fs cs).findSome? (fault? fs) with
        | none => simp [Except.map]
        | some e => rfl

theorem collect_congr (same : ∀ c ∈ upToRoot fs cs, fs'.read c = fs.read c) :
    collect fs' cs = collect fs cs := by
  induction cs with
  | nil => rfl
  | cons c cs ih =>
    have here : SettingsFile.load fs' c = SettingsFile.load fs c :=
      load_congr (same c (mem_upToRoot_self fs c cs))
    cases root : opensAsRoot fs c with
    | true =>
      obtain ⟨file, loaded, isRoot⟩ := exists_of_opensAsRoot root
      rw [collect_cons_of_root loaded isRoot, collect_cons_of_root (here.trans loaded) isRoot]
    | false =>
      rw [upToRoot_cons root] at same
      rw [collect, collect, here, ih (fun d member => same d (List.mem_cons_of_mem _ member))]

theorem settingsFiles_of_relative {name : Path} (relative : ¬ name.isAbsolute) (fs : FileSystem)
    (target : Path) : settingsFiles fs target name = collect fs (candidates fs target name) := by
  rw [settingsFiles, if_neg relative]

end Loading

/-- The search fails with the first malformed file up to the first root, or else finds the files up to there
that can be opened, the farthest first.  What the settings are does not depend on any other file. -/
theorem search_ends_at_root (fs : FileSystem) (target name : Path) (relative : ¬ name.isAbsolute) :
    (∀ e, (searched fs target name).findSome? (fault? fs) = some e →
      settingsFiles fs target name = .error (.malformed e)) ∧
    ((searched fs target name).findSome? (fault? fs) = none →
      settingsFiles fs target name = .ok ((searched fs target name).filterMap (opened? fs)).reverse) ∧
    ∀ fs' : FileSystem, fs'.cwd = fs.cwd → (∀ c ∈ searched fs target name, fs'.read c = fs.read c) →
      ∀ legacy, settingsFor fs' target name legacy = settingsFor fs target name legacy := by
  have found := settingsFiles_of_relative relative fs target
  refine ⟨?_, ?_, ?_⟩
  · intro e malformed
    rw [found, collect_eq]
    rw [searched] at malformed
    rw [malformed]
  · intro sound
    rw [found, collect_eq]
    rw [searched] at sound ⊢
    rw [sound]
  · intro fs' cwd same legacy
    have tried : candidates fs' target name = candidates fs target name := by
      rw [candidates, candidates, FileSystem.absolute, FileSystem.absolute, cwd]
    have files : settingsFiles fs' target name = settingsFiles fs target name := by
      rw [settingsFiles_of_relative relative, found, tried, collect_congr same]
    have applied (files : List SettingsFile) :
        applyFiles fs' target files .empty = applyFiles fs target files .empty := by
      rw [applyFiles, applyFiles, FileSystem.absolute, FileSystem.absolute, cwd]
    rw [settingsFor, settingsFor, files]
    simp only [applied]

/-- A root in `/a`, and above it a file that is malformed if `broken`. -/
def rootBelowFile (broken : Bool) : FileSystem where
  cwd := ⟨.root, []⟩
  read p :=
    if p = ⟨.root, [['a'], ['s']]⟩ then .ok (Utf8.encode "root=true".toList)
    else if p = ⟨.root, [['s']]⟩ then
      .ok (Utf8.encode (if broken then "[*".toList else "[*]\nx=1".toList))
    else .error .noSuchFile

theorem search_ends_at_root_rootBelowFile :
    let target : Path := ⟨.root, [['a'], ['b'], ['c']]⟩
    let name : Path := ⟨.relative, [['s']]⟩
    let root : Path := ⟨.root, [['a'], ['s']]⟩
    ¬ name.isAbsolute ∧ (candidates (rootBelowFile true) target name).length = 3 ∧
      settingsFiles (rootBelowFile true) target name = .ok [⟨root, ⟨some root, true, none, [], 1⟩⟩] ∧
      settingsFor (rootBelowFile false) target name false =
        settingsFor (rootBelowFile true) target name false := by
  intro target name root
  have relative : ¬ name.isAbsolute := by decide
  let nearest : Path := ⟨.root, [['a'], ['b'], ['s']]⟩
  have all : candidates (rootBelowFile true) target name = [nearest, root, ⟨.root, [['s']]⟩] := rfl
  have absent : SettingsFile.load (rootBelowFile true) nearest =
      .error (.unreadable .noSuchFile nearest) := rfl
  have loaded : SettingsFile.load (rootBelowFile true) root =
      .ok ⟨root, ⟨some root, true, none, [], 1⟩⟩ := by
    decide +kernel
  have closed : opened? (rootBelowFile true) nearest = none := by
    rw [opened?, absent]
    rfl
  have inner : opensAsRoot (rootBelowFile true) nearest = false := by
    rw [opensAsRoot, closed, Option.any_none]
  have tried : searched (rootBelowFile true) target name = [nearest, root] := by
    rw [searched, all, upToRoot_cons inner, upToRoot_cons_of_root (opensAsRoot_of_load loaded)]
  have faultless : (searched (rootBelowFile true) target name).findSome? (fault? (rootBelowFile true)) =
      none := by
    simp [tried, fault?, absent, loaded]
  obtain ⟨_, sound, isolated⟩ := search_ends_at_root (rootBelowFile true) target name relative
  refine ⟨relative, by rw [all]; rfl, ?_, ?_⟩
  · rw [sound faultless, tried, List.filterMap_cons, closed, List.filterMap_cons, opened?_of_load loaded]
    rfl
  · refine isolated (rootBelowFile false) rfl ?_ false
    rw [tried]
    simp [rootBelowFile, nearest, root]

end EditorSettings
