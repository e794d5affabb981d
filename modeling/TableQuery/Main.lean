/-
The program: the command line over the files of the system and the standard streams.
-/
import TableQuery.CommandLine.Basic

namespace TableQuery.CommandLine

/-- The number of a fault of the system, which may be given with its sign changed. -/
def faultNumber (code : UInt32) : Nat := min code.toNat (0 - code).toNat

/-- The fault that keeps a file from being read. -/
def fileError : IO.Error → FileError
  | .noFileOrDirectory .. => .missing
  | .permissionDenied .. => .denied
  | .inappropriateType _ code _ => if faultNumber code = 20 then .notADirectory else .isADirectory
  | .userError _ => .notText
  | .otherError code _ => .other (faultNumber code)
  | _ => .other 5

/-- The text of a file, or why there is none. -/
def readText (path : String) : IO (Except FileError String) := do
  try return .ok (← IO.FS.readFile path)
  catch e => return .error (fileError e)

/-- The texts of the files that tables are loaded from. -/
def readTables (tables : List TableFile) : IO Files := do
  let texts ← tables.mapM fun t => do return (t.path, ← readText t.path)
  return fun path => (texts.lookup path).getD (.error .missing)

/-- Writes what a run has written. -/
def emit (o : Outcome) : IO Unit := do
  IO.print o.output
  (← IO.getStdout).flush
  IO.eprint o.errors

/-- Executes the lines of the input as they come. -/
partial def runLines (session : Session) (format : Format) (input : IO.FS.Stream) : IO Unit := do
  let line ← input.getLine
  if !line.isEmpty then
    emit (runLine session format line)
    runLines session format input

end TableQuery.CommandLine

open TableQuery.CommandLine in
/-- Runs the program. -/
def main (arguments : List String) : IO UInt32 := do
  let files ← match Request.ofArguments arguments with
    | .run o => readTables (if o.listFunctions then [] else o.tables)
    | _ => readTables []
  match Task.ofArguments arguments files with
  | .done outcome =>
    emit outcome
    return outcome.code.toUInt32
  | .lines session format =>
    runLines session format (← IO.getStdin)
    return 0
