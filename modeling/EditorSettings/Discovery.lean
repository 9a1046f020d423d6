import EditorSettings.Document.File

/-!
# Finding the settings of a file

The settings of a target come from the files of one name in all directories above it.  They are
looked for from the target outwards, up to a file that is a root, and applied from the outermost
inwards, so that nearer files win.  A file that cannot be read is as good as absent.  A name that
is an absolute path stands for that one file instead, which has to be there.

* `candidates` are the paths that are tried, nearest first;
* `collect` loads them, `settingsFiles` finds the files for a target in the order in which they
  apply;
* `settingsFor` is the answer: the properties of a target.
-/

namespace EditorSettings

def defaultName : Text := ".editorconfig".toList

/-- The files that may hold settings for a target, nearest first. -/
def candidates (fs : FileSystem) (target name : Path) : List Path :=
  (fs.absolute target).ancestors.map (·.join name)

/-- Load the candidates up to a root, the last one first.  Files that cannot be read are passed
over; a malformed one is a failure. -/
def collect (fs : FileSystem) : List Path → Except Failure (List SettingsFile)
  | [] => .ok []
  | candidate :: rest =>
    match SettingsFile.load fs candidate with
    | .error (.unreadable _ _) => collect fs rest
    | .error e => .error e
    | .ok file =>
      if file.isRoot then .ok [file]
      else
        match collect fs rest with
        | .error e => .error e
        | .ok outer => .ok (outer ++ [file])

/-- The settings files for a target, in the order in which they apply. -/
def settingsFiles (fs : FileSystem) (target name : Path) : Except Failure (List SettingsFile) :=
  if name.isAbsolute then
    match SettingsFile.load fs name with
    | .error e => .error e
    | .ok file => .ok [file]
  else collect fs (candidates fs target name)

def applyFiles (fs : FileSystem) (target : Path) (files : List SettingsFile)
    (props : Properties) : Applied :=
  SettingsFile.applyAll (fs.absolute target) files props

/-- The settings for a target, with the fallbacks filled in. -/
def settingsFor (fs : FileSystem) (target name : Path) (legacy : Bool) :
    Except Failure Properties :=
  match settingsFiles fs target name with
  | .error e => .error e
  | .ok files =>
    match applyFiles fs target files .empty with
    | ⟨_, some e⟩ => .error e
    | ⟨props, none⟩ => .ok (props.useFallbacks legacy)

end EditorSettings
