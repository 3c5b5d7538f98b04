import HeaderDb.Program

/-!
The program on the real file system. It asks for the answers that a run needs,
hands them to `survey`, and writes what comes out.
-/

namespace HeaderDb.Program

/-- The error of the file system with the given number, if a run knows it. The
number comes with either sign. -/
def osErrorOfCode? (code : UInt32) : Option OsError :=
  match (min code (0 - code)).toNat with
  | 2 => some .notFound
  | 20 => some .notADirectory
  | 21 => some .isADirectory
  | 36 => some .nameTooLong
  | 40 => some .linkLoop
  | _ => none

def osError? : IO.Error → Option OsError
  | .noFileOrDirectory _ code _ | .inappropriateType _ code _ | .invalidArgument _ code _
  | .resourceExhausted _ code _ | .otherError code _ => osErrorOfCode? code
  | _ => none

/-- The outcome of an action; errors that a run does not know are passed on. -/
def attempt {α : Type} (action : IO α) : IO (Except OsError α) := do
  try
    return .ok (← action)
  catch e =>
    match osError? e with
    | some error => return .error error
    | none => throw e

def loadFile (p : Bytes) : IO Bytes := do
  return (← IO.FS.readBinFile (Utf8.lossy p)).toList

def listDirectory (p : Bytes) : IO (List Entry) := do
  let dir := (← IO.currentDir).join (Utf8.lossy p)
  let entries ← dir.readDir
  entries.toList.mapM fun e => do
    return { name := Utf8.encode e.fileName, isDirectory := ← e.path.isDir }

/-- The path of the current directory; it has none once it has been removed. -/
def currentPath : IO (Except OsError Bytes) := do
  try
    return .ok (Utf8.encode (← IO.currentDir).toString)
  catch _ => return .error .notFound

/-- Asks for what a run with these arguments needs. -/
def gather (args : Arguments) : IO Surroundings := do
  let settings ← match args.config with
    | some p => attempt (loadFile p)
    | none => pure (.error .notFound)
  let current ← currentPath
  let entries ← match workingDirectory current args.directory with
    | .ok p => attempt (listDirectory p)
    | .error e => pure (.error e)
  return { load := fun _ => settings, currentDirectory := current, list := fun _ => entries }

/-- Writes a text to the output. -/
def write (output : Option Bytes) (text : String) : IO Unit :=
  match output with
  | some p => IO.FS.writeFile (Utf8.lossy p) text
  | none => IO.print text

/-- Runs with the given arguments and gives the exit code. -/
def runHere (coloured : Bool) (args : Arguments) : IO UInt32 := do
  match survey args (← gather args) with
  | .error f =>
    IO.eprint (errorLine coloured f.message)
    return 1
  | .ok s =>
    IO.eprint (stderrText coloured (if args.verbose then s.notes else []) (.ok ()))
    match ← attempt (write args.output s.database.render) with
    | .ok () => return 0
    | .error e =>
      IO.eprint (errorLine coloured e.message)
      return 1

end HeaderDb.Program

open HeaderDb in
def main (argv : List String) : IO UInt32 := do
  let env : Program.Environment :=
    { force := ← IO.getEnv "CLICOLOR_FORCE", refuse := ← IO.getEnv "NO_COLOR" }
  match CommandLine.parse (argv.map Utf8.encode) with
  | .error e =>
    IO.eprint (Program.usageLine env.coloursUsage e)
    return 2
  | .ok (.display d) =>
    IO.print (d.text.print env.coloursUsage)
    return 0
  | .ok (.run args) =>
    try
      Program.runHere env.coloursNotes args
    catch e =>
      IO.eprint (Program.errorLine env.coloursNotes (toString e))
      return 1
