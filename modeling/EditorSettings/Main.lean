import EditorSettings.Cli.Report

/-!
# The command line

The outer layer: it reads the arguments, the environment and the files that a request may
consult, and prints the report.
-/

namespace EditorSettings.Cli

def readFailure : IO.Error → ReadFailure
  | .noFileOrDirectory .. => .noSuchFile
  | .permissionDenied .. => .permissionDenied
  | .inappropriateType .. => .isDirectory
  | _ => .inputOutput

def readPath (path : Path) : IO (Except ReadFailure (List UInt8)) := do
  try
    let bytes ← IO.FS.readBinFile (String.ofList path.text)
    return .ok bytes.toList
  catch e => return .error (readFailure e)

/-- Read files and return what was found. -/
def readPaths (cwd : Path) (paths : List Path) : IO FileSystem := do
  let found ← paths.mapM fun path => return (path, ← readPath path)
  return ⟨cwd, fun path => ((found.find? (·.1 = path)).map (·.2)).getD (.error .noSuchFile)⟩

def execute (tool : Tool) (arguments : List String) : IO UInt32 := do
  let environment := (← IO.getEnv "ECCONFIG_FILENAME").map String.toList
  let cwd := Path.parse (← IO.currentDir).toString.toList
  let answer ←
    match Request.ofArguments tool (arguments.map String.toList) environment with
    | .error e => pure (Report.ofUsageError tool e)
    | .ok request => do
      let fs ← readPaths cwd (request.consulted cwd)
      pure (Report.ofRequest fs request)
  match answer with
  | .error obstacle =>
    IO.eprintln (String.ofList obstacle.message)
    return 1
  | .ok report =>
    for line in report.messages do IO.eprintln (String.ofList line)
    for line in report.output do IO.println (String.ofList line)
    return UInt32.ofNat report.status

end EditorSettings.Cli

def main (arguments : List String) : IO UInt32 :=
  EditorSettings.Cli.execute .commands arguments
