import EditorSettings.Cli.Options
import EditorSettings.Discovery
import EditorSettings.Version

/-!
# Requests

There are two tools.  The first has the commands `parse`, `match` and `files`; the second does
what `parse` does, with the command line of the tools that come with the specification.

* `Request` is what a command line asks for;
* `Request.ofArguments` reads it, or says how the command line is wrong.

An option that shows something and ends the program is obeyed before anything else is asked
for, but not before all options have been understood.
-/

namespace EditorSettings.Cli

inductive Tool
  | commands
  | settings
  deriving DecidableEq, Repr

inductive UsageError
  | options (e : ArgumentError)
  | missingCommand
  | noSuchCommand (name : Text)
  | missingOperand (name : Text)
  | unexpectedOperand (operand : Text)
  /-- An operand has a NUL in it, so it names no file. -/
  | notAPath (operand : Text)
  | version (e : VersionError)
  deriving DecidableEq, Repr

inductive Request
  | help (tool : Tool)
  | version (tool : Tool)
  | settings (verbose announceLegacy : Bool) (targets : List Text) (name : Path) (legacy : Bool)
  | matching (verbose showProgram : Bool) (pattern : Text) (paths : List Text)
  | files (verbose : Bool) (target : Text) (name : Path)

/-! ## Options -/

/-- What the options of all commands stand for. -/
inductive Switch
  | help
  | version
  | verbose
  | filename
  | specVersion
  | program
  deriving DecidableEq

namespace Switch

def helpSpec : OptionSpec Switch := ⟨.help, [], ["help".toList], false⟩

def versionSpec : OptionSpec Switch := ⟨.version, [], ["version".toList], false⟩

def versionShortSpec : OptionSpec Switch := ⟨.version, ['v'], ["version".toList], false⟩

def verboseSpec : OptionSpec Switch := ⟨.verbose, ['v'], ["verbose".toList], false⟩

def filenameSpec : OptionSpec Switch := ⟨.filename, ['f'], ["filename".toList], true⟩

def specVersionSpec : OptionSpec Switch := ⟨.specVersion, ['b'], [], true⟩

def specVersionLongSpec : OptionSpec Switch := ⟨.specVersion, ['b'], ["ec-version".toList], true⟩

def programSpec : OptionSpec Switch := ⟨.program, [], ["program".toList], false⟩

end Switch

abbrev Options := List (Switch × Option Text)

/-- The first option that shows something and ends the program. -/
def shown? (options : Options) : Option Switch :=
  (options.map Prod.fst).find? fun o => o = .help || o = .version

/-- The name of settings files that is asked for: by an option, or else by the environment unless
that is empty. -/
def nameFor (options : Options) (environment : Option Text) : Path :=
  Path.parse <|
    match lastValue .filename options, environment with
    | some name, _ => name
    | none, some name => if name.isEmpty then defaultName else name
    | none, none => defaultName

def legacyFor (options : Options) : Except UsageError Bool :=
  match lastValue .specVersion options with
  | none => .ok false
  | some t =>
    match Version.parse t with
    | .error e => .error (.version e)
    | .ok v => .ok v.isLegacy

/-- The first operand that names no file. -/
def notAPath? (operands : List Text) : Option Text := operands.find? (·.contains '\x00')

namespace Request

/-- Read arguments, of which the options are passed on with the operands unless one of them ends
the program. -/
def withOptions (tool : Tool) (specs : List (OptionSpec Switch)) (interspersed : Bool)
    (arguments : List Text) (go : Options → List Text → Except UsageError Request) :
    Except UsageError Request :=
  match readArguments specs interspersed arguments with
  | .error e => .error (.options e)
  | .ok (options, operands) =>
    match shown? options with
    | some .version => .ok (.version tool)
    | some _ => .ok (.help tool)
    | none => go options operands

def ofSettings (verbose announceLegacy : Bool) (environment : Option Text) (options : Options)
    (targets : List Text) : Except UsageError Request :=
  match targets, notAPath? targets with
  | [], _ => .error (.missingOperand "FILES".toList)
  | _, some operand => .error (.notAPath operand)
  | targets, none =>
    match legacyFor options with
    | .error e => .error e
    | .ok legacy =>
      .ok (.settings verbose announceLegacy targets (nameFor options environment) legacy)

def ofMatching (verbose : Bool) (options : Options) :
    List Text → Except UsageError Request
  | [] => .error (.missingOperand "PATTERN".toList)
  | [_] => .error (.missingOperand "PATHS".toList)
  | pattern :: paths => .ok (.matching verbose (hasOption .program options) pattern paths)

def ofFiles (verbose : Bool) (environment : Option Text) (options : Options) :
    List Text → Except UsageError Request
  | [] => .error (.missingOperand "PATH".toList)
  | target :: rest =>
    match notAPath? [target], rest with
    | some operand, _ => .error (.notAPath operand)
    | none, [] => .ok (.files verbose target (nameFor options environment))
    | none, operand :: _ => .error (.unexpectedOperand operand)

def ofCommand (verbose : Bool) (environment : Option Text) :
    List Text → Except UsageError Request
  | [] => .error .missingCommand
  | command :: arguments =>
    if command = "parse".toList then
      withOptions .commands [Switch.filenameSpec, Switch.specVersionLongSpec, Switch.helpSpec]
        true arguments (ofSettings verbose true environment)
    else if command = "match".toList then
      withOptions .commands [Switch.programSpec, Switch.helpSpec] true arguments
        (ofMatching verbose)
    else if command = "files".toList then
      withOptions .commands [Switch.filenameSpec, Switch.helpSpec] true arguments
        (ofFiles verbose environment)
    else .error (.noSuchCommand command)

def ofArguments (tool : Tool) (arguments : List Text) (environment : Option Text) :
    Except UsageError Request :=
  match tool with
  | .commands =>
    withOptions tool [Switch.verboseSpec, Switch.versionSpec, Switch.helpSpec] false arguments
      fun options operands => ofCommand (hasOption .verbose options) environment operands
  | .settings =>
    withOptions tool
      [Switch.filenameSpec, Switch.specVersionSpec, Switch.versionShortSpec, Switch.helpSpec]
      true arguments (ofSettings false false environment)

/-- The files that a request may read, seen from a working directory. -/
def consulted (cwd : Path) : Request → List Path
  | .settings _ _ targets name _ => targets.flatMap fun t => inspected t name
  | .files _ target name => inspected target name
  | _ => []
where
  inspected (target : Text) (name : Path) : List Path :=
    if name.isAbsolute then [name]
    else (cwd.join (Path.parse target)).ancestors.map (·.join name)

end Request

end EditorSettings.Cli
