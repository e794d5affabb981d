/-
The command line as a function of its arguments, the files and its input.

Tables are loaded from JSON files. Then one query is executed, or each line of the input as a query
of its own; a line that fails is reported, and the next one is read.
-/
import TableQuery.CommandLine.Options
import TableQuery.Json.Indented
import TableQuery.Json.Reader
import TableQuery.Session
import TableQuery.Table.Grid

namespace TableQuery.CommandLine

/-- Why a file has no text. -/
inductive FileError where
  | missing
  | denied
  | notADirectory
  | isADirectory
  | notText
  | other (code : Nat)
  deriving Repr, DecidableEq

/-- The wording of a fault of a file. -/
def FileError.message : FileError → String
  | missing => "No such file or directory (os error 2)"
  | denied => "Permission denied (os error 13)"
  | notADirectory => "Not a directory (os error 20)"
  | isADirectory => "Is a directory (os error 21)"
  | notText => "stream did not contain valid UTF-8"
  | other code => s!"Unknown error {code} (os error {code})"

/-- The texts of files by their paths. -/
abbrev Files := String → Except FileError String

/-- What a run has written, and the code with which it ends. -/
structure Outcome where
  code : UInt8 := 0
  output : String := ""
  errors : String := ""
  deriving Repr, DecidableEq

namespace Outcome

/-- The outcome of two runs, one after the other; the second one decides how it ends. -/
def followedBy (a b : Outcome) : Outcome := ⟨b.code, a.output ++ b.output, a.errors ++ b.errors⟩

end Outcome

/-- A cause in a report: its first line behind a mark, all others as far to the right. -/
def indentCause (mark : String) (cause : String) : String :=
  let margin := String.ofList (List.replicate mark.length ' ')
  "\n" ++ mark ++ String.join (cause.toList.map fun c =>
    if c = '\n' then "\n" ++ margin else String.ofList [c])

/-- An error that ends a run, with its causes below it. Several causes are numbered. -/
def report : List String → String
  | [] => "Error: \n"
  | [top] => "Error: " ++ top ++ "\n"
  | [top, cause] => "Error: " ++ top ++ "\n\nCaused by:" ++ indentCause "    " cause ++ "\n"
  | top :: causes =>
    let numbered := causes.zipIdx.map fun (cause, i) =>
      let number := toString i
      indentCause (String.ofList (List.replicate (5 - number.length) ' ') ++ number ++ ": ") cause
    "Error: " ++ top ++ "\n\nCaused by:" ++ String.join numbered ++ "\n"

/-- A run that an error ends. -/
def failed (messages : List String) : Outcome := ⟨1, "", report messages⟩

/-- The text of a result. -/
def Format.text (f : Format) (v : View) : String :=
  match f with
  | json => v.indentedText ++ "\n"
  | grid => v.grid

/-- The text that explains the options. -/
def helpText : String :=
  "memquery - an in-memory SQL engine over JSON tables\n\n" ++
  "Usage: memquery [OPTIONS]\n\n" ++
  "Options:\n" ++
  "  -t, --table <TABLES>   Table to load, as NAME=PATH to a JSON array of objects (repeatable)\n" ++
  "  -q, --query <QUERY>    Statement to run. Without it statements are read from stdin, one per line\n" ++
  "  -f, --format <FORMAT>  Output format [default: table] [possible values: json, table]\n" ++
  "  -d, --debug            Enable debug logging\n" ++
  "      --list-functions   List the registered functions and exit\n" ++
  "  -h, --help             Print help\n" ++
  "  -V, --version          Print version\n"

/-- The name of the program and its version. -/
def versionText : String := "memquery 0.1.0\n"

/-- What is said when the arguments are refused. -/
def usageText : String :=
  "Usage: memquery [OPTIONS]\n\nFor more information, try '--help'.\n"

/-- Loads one table into a session. -/
def loadTable (files : Files) (s : Session) (t : TableFile) : Except (List String) Session :=
  match files t.path with
  | .error e => .error [s!"Failed to read {t.path}", e.message]
  | .ok text =>
    match View.ofJson text with
    | .error e => .error [s!"Failed to load table {t.name} from {t.path}", e.message]
    | .ok v => .ok (s.registerView t.name v)

/-- What is left to do once the tables are loaded. -/
inductive Task where
  | done (outcome : Outcome)
  /-- Every line of the input is executed. -/
  | lines (session : Session) (format : Format)

/-- Does all that does not need the input. -/
def Task.ofOptions (o : Options) (files : Files) : Task :=
  if o.listFunctions then
    done ⟨0, String.join (({} : Session).functions.names.map (· ++ "\n")), ""⟩
  else match o.tables.foldlM (loadTable files) {} with
    | .error messages => done (failed messages)
    | .ok session =>
      let format := o.format.getD .grid
      match o.query with
      | none => lines session format
      | some query =>
        match session.query query with
        | .error e => done (failed e.messages)
        | .ok v => done ⟨0, format.text v, ""⟩

/-- What the arguments ask for. -/
def Task.ofArguments (arguments : List String) (files : Files) : Task :=
  match Request.ofArguments arguments with
  | .run o => ofOptions o files
  | .help => done ⟨0, helpText, ""⟩
  | .version => done ⟨0, versionText, ""⟩
  | .refused => done ⟨2, "", usageText⟩

/-- Executes one line of the input. Empty lines and comments are passed over. -/
def runLine (session : Session) (format : Format) (line : String) : Outcome :=
  match Text.trim line.toList with
  | [] => {}
  | '-' :: '-' :: _ => {}
  | text =>
    match session.query (String.ofList text) with
    | .error e => { errors := "Error: " ++ String.intercalate ": " e.messages ++ "\n" }
    | .ok v => { output := format.text v }

/-- A whole run of the command line. -/
def run (arguments : List String) (files : Files) (input : String) : Outcome :=
  match Task.ofArguments arguments files with
  | .done outcome => outcome
  | .lines session format =>
    ((input.splitOn "\n").map (runLine session format)).foldl Outcome.followedBy {}

end TableQuery.CommandLine
