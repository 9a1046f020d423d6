import EditorSettings.Cli.Request
import EditorSettings.Trace

/-!
# Reports

A report is what a request gives: the lines on the two output streams and the exit status.  It is
a function of the request and of the files that can be read.

* `Report.ofRequest` answers a request, `Report.ofUsageError` a wrong command line.
* An `Obstacle` is met where there is nothing to report, not even what came before it.
* `Properties.listing` are the lines that show properties.

With `verbose`, the second stream has the log and what is said about the course of the work.
-/

namespace EditorSettings

/-- Whether the values of a key are shown in lower case. -/
def isStandardKey (key : Text) : Bool := PropertyKind.standard.any (·.key = key)

/-- The line that shows a key with a value, unless it is the word `unset`. -/
def Value.listing (key : Text) (v : Value) : Option Text :=
  if v.isUnsetWord then none
  else some (key ++ ['='] ++ if isStandardKey key then Text.lower v.text else v.text)

def Properties.listing (p : Properties) : List Text :=
  p.entriesSet.filterMap fun e => e.2.listing e.1

namespace Cli

structure Report where
  status : Nat
  /-- The lines on the first stream. -/
  output : List Text
  /-- The lines on the second stream. -/
  messages : List Text
  deriving DecidableEq

inductive Obstacle
  | notAPath (operand : Text)
  | tooManyDigits (e : TooManyDigits)
  deriving DecidableEq

def Obstacle.message : Obstacle → Text
  | .notAPath _ => "embedded null byte".toList
  | .tooManyDigits e => e.message

def toolVersion : Text := "0.1.0".toList

/-- A text without the escape sequences that control a terminal, for a stream that is none. -/
def withoutEscapes (t : Text) : Text :=
  match t with
  | [] => []
  | c :: rest =>
    if c = '\x1b' && rest.head? = some '[' then
      match _h : rest.tail.dropWhile fun c => c.isDigit || c = ';' || c = '?' with
      | [] => c :: withoutEscapes rest
      | letter :: after =>
        if letter.isAlpha then withoutEscapes after else c :: withoutEscapes rest
    else c :: withoutEscapes rest
termination_by t.length
decreasing_by
  · simp
  · have shorter : (letter :: after).length ≤ rest.tail.length :=
      _h ▸ (List.dropWhile_sublist _).length_le
    simp only [List.length_cons, List.length_tail] at shorter ⊢
    omega
  · simp
  · simp

namespace Report

def ofFailure (f : Failure) : Except Obstacle Report :=
  match f with
  | .tooManyDigits e => .error (.tooManyDigits e)
  | f => .ok ⟨1, [], [withoutEscapes ("Error: ".toList ++ f.message)]⟩

def after (output messages : List Text) (r : Report) : Report :=
  ⟨r.status, output ++ r.output, messages ++ r.messages⟩

def whenVerbose (verbose : Bool) (lines : List Text) : List Text := if verbose then lines else []

def log (verbose : Bool) (events : List Event) : List Text :=
  whenVerbose verbose (events.map Event.line)

/-! ## Settings -/

/-- The settings of targets up to the first failure; with a header for each if there are
`several`. -/
def ofTargets (fs : FileSystem) (verbose several : Bool) (name : Path) (legacy : Bool) :
    List Text → Except Obstacle Report
  | [] => .ok ⟨0, [], []⟩
  | target :: rest =>
    let path := Path.parse target
    let header := if several then [withoutEscapes (['['] ++ target ++ [']'])] else []
    let messages := log verbose (settingsTrace fs path name)
    match settingsFor fs path name legacy with
    | .error e => (ofFailure e).map (after header messages)
    | .ok props =>
      (ofTargets fs verbose several name legacy rest).map
        (after (header ++ props.listing.map withoutEscapes) messages)

def ofSettings (fs : FileSystem) (verbose announceLegacy : Bool) (targets : List Text)
    (name : Path) (legacy : Bool) : Except Obstacle Report :=
  (ofTargets fs verbose (1 < targets.length) name legacy targets).map <|
    after []
      (whenVerbose (verbose && announceLegacy && legacy)
        ["Using fallbacks from before EditorConfig 0.10.0".toList])

/-! ## Matching -/

def matchCount (matched all : Nat) : Text :=
  Decimal.write matched ++ " of ".toList ++ Decimal.write all ++ " paths matched".toList

def ofMatching (verbose showProgram : Bool) (pattern : Text) (paths : List Text) :
    Except Obstacle Report :=
  match Glob.compile (Symbol.ofText pattern) with
  | .error e => .error (.tooManyDigits e)
  | .ok glob =>
    let components (path : Text) := (Path.parse path).components
    let matched := paths.filter fun path => glob.accepts (components path)
    .ok ⟨if matched.isEmpty then 1 else 0, matched.map withoutEscapes,
      log verbose [.compiled glob] ++ (if showProgram then Program.outline glob.program else [])
        ++ log verbose (paths.flatMap fun path => glob.trace (components path))
        ++ whenVerbose verbose [matchCount matched.length paths.length]⟩

/-! ## Settings files -/

def fileLine (f : SettingsFile) : Text :=
  withoutEscapes (f.path.text ++ if f.isRoot then " (root)".toList else [])

def ofFiles (fs : FileSystem) (verbose : Bool) (target : Text) (name : Path) :
    Except Obstacle Report :=
  let path := Path.parse target
  let found :=
    match settingsFiles fs path name with
    | .error e => ofFailure e
    | .ok files =>
      .ok ⟨0, files.map fileLine,
        whenVerbose (verbose && files.isEmpty) ["No config files found".toList]⟩
  found.map (after [] (log verbose (searchTrace fs path name)))

/-! ## Requests -/

def versionLine : Tool → Text
  | .commands => "ecconfig, version ".toList ++ toolVersion
  | .settings =>
    "EditorConfig (ecconfig-parse ".toList ++ toolVersion ++ ") Version ".toList
      ++ Version.current.text

def usage : Tool → List Text
  | .commands =>
    ["Usage: ecconfig [-v] parse [-f NAME] [-b VERSION] FILES...".toList,
      "       ecconfig [-v] match [--program] PATTERN PATHS...".toList,
      "       ecconfig [-v] files [-f NAME] PATH".toList]
  | .settings => ["Usage: ecconfig-parse [-f NAME] [-b VERSION] FILES...".toList]

def ofRequest (fs : FileSystem) : Request → Except Obstacle Report
  | .help tool => .ok ⟨0, usage tool, []⟩
  | .version tool => .ok ⟨0, [versionLine tool], []⟩
  | .settings verbose announceLegacy targets name legacy =>
    ofSettings fs verbose announceLegacy targets name legacy
  | .matching verbose showProgram pattern paths => ofMatching verbose showProgram pattern paths
  | .files verbose target name => ofFiles fs verbose target name

end Report

/-! ## Wrong command lines -/

def ArgumentError.message : ArgumentError → Text
  | .noSuchOption name => "No such option: ".toList ++ name
  | .missingValue name => "Option requires an argument: ".toList ++ name
  | .unexpectedValue name => "Option does not take a value: ".toList ++ name

def UsageError.message : UsageError → Text
  | .options e => e.message
  | .missingCommand => "Missing command.".toList
  | .noSuchCommand name => "No such command: ".toList ++ name
  | .missingOperand name => "Missing argument: ".toList ++ name
  | .unexpectedOperand operand => "Got unexpected extra argument: ".toList ++ operand
  | .notAPath operand => (Obstacle.notAPath operand).message
  | .version e => e.message

def Report.ofUsageError (tool : Tool) (e : UsageError) : Except Obstacle Report :=
  match e with
  | .notAPath operand => .error (.notAPath operand)
  | e => .ok ⟨2, [], usage tool ++ ["Error: ".toList ++ e.message]⟩

def run (fs : FileSystem) (tool : Tool) (arguments : List Text) (environment : Option Text) :
    Except Obstacle Report :=
  match Request.ofArguments tool arguments environment with
  | .error e => Report.ofUsageError tool e
  | .ok request => Report.ofRequest fs request

end Cli

end EditorSettings
