import EditorSettings.Discovery
import EditorSettings.Glob.Display

/-!
# Traces

What happens while settings are looked for can be logged as a list of events.  The functions of
this module follow the search step by step and say what it does; they decide nothing.

* `Event.line` is the line of an event in a log.
* `searchTrace` are the events of `settingsFiles`, `applyTrace` those of `applyFiles` and
  `settingsTrace` those of `settingsFor`.
-/

namespace EditorSettings

inductive Event
  /-- A file is used because it was named. -/
  | chosen (path : Path)
  | skipping (path : Path) (reason : ReadFailure)
  | loaded (path : Path)
  | stopping (path : Path)
  | compiled (glob : Glob)
  | gaveUp (ceiling : Int)

namespace Event

def logger : Event → Text
  | .compiled _ => "ecconfig.glob._parse".toList
  | .gaveUp _ => "ecconfig.glob._match".toList
  | _ => "ecconfig.file".toList

def message : Event → Text
  | .chosen path => "Using config file ".toList ++ path.text
  | .skipping path reason => "Skipping ".toList ++ path.text ++ ": ".toList ++ reason.reason
  | .loaded path => "Loaded ".toList ++ path.text
  | .stopping path => "Stopping at root config ".toList ++ path.text
  | .compiled glob =>
    "Compiled glob ".toList ++ Quoted.codePoints (glob.pattern.map Symbol.codePoint)
      ++ " into ".toList ++ Program.display glob.program
  | .gaveUp ceiling =>
    "Glob choice stack exceeded ".toList ++ Decimal.writeInt ceiling ++ " entries".toList

def line (e : Event) : Text := e.logger ++ ":DEBUG: ".toList ++ e.message

end Event

/-! ## Matching -/

def Glob.trace (g : Glob) (path : List Component) : List Event :=
  if g.outcome? .raw path = some .ceilingReached then [.gaveUp g.ceiling] else []

def Reader.Yield.trace (y : Reader.Yield) (path : List Component) : List Event :=
  match Glob.compile (Symbol.ofText y.pattern) with
  | .error _ => []
  | .ok glob => .compiled glob :: (if y.result.toBool then glob.trace path else [])

def SettingsFile.trace (f : SettingsFile) (target : Path) : List Event :=
  f.reader.all.1.flatMap fun y => y.trace (f.view target).components

def SettingsFile.traceAll (target : Path) : List SettingsFile → List Event
  | [] => []
  | f :: rest =>
    f.trace target ++ (if f.reader.failure?.isSome then [] else traceAll target rest)

def applyTrace (fs : FileSystem) (target : Path) (files : List SettingsFile) : List Event :=
  SettingsFile.traceAll (fs.absolute target) files

/-! ## Searching -/

def collectTrace (fs : FileSystem) : List Path → List Event
  | [] => []
  | candidate :: rest =>
    match SettingsFile.load fs candidate with
    | .error (.unreadable reason _) => .skipping candidate reason :: collectTrace fs rest
    | .error _ => []
    | .ok file =>
      .loaded candidate :: if file.isRoot then [.stopping candidate] else collectTrace fs rest

def searchTrace (fs : FileSystem) (target name : Path) : List Event :=
  if name.isAbsolute then [.chosen name] else collectTrace fs (candidates fs target name)

def settingsTrace (fs : FileSystem) (target name : Path) : List Event :=
  searchTrace fs target name ++
    match settingsFiles fs target name with
    | .error _ => []
    | .ok files => applyTrace fs target files

end EditorSettings
