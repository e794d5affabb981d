/-
The options of the command line.

An option is a switch, which stands for itself, or a setting, which takes a value. Long names follow
two hyphens, with the value behind an equals sign or in the next argument. Letters follow one hyphen
and may be run together, where a setting takes what is left as its value. A value that is an
argument of its own does not look like an option. Only tables may be given more than once.
-/

namespace TableQuery.CommandLine

/-- The form in which results are printed. -/
inductive Format where
  | json
  | grid
  deriving Repr, DecidableEq

/-- The format with the given name. -/
def Format.ofName? : String → Option Format
  | "json" => some .json
  | "table" => some .grid
  | _ => none

/-- A table and the file that holds its rows. -/
structure TableFile where
  name : String
  path : String
  deriving Repr, DecidableEq

/-- Reads a name and a path with an equals sign between them; neither is empty. -/
def TableFile.ofText? (text : String) : Option TableFile :=
  let name := text.toList.takeWhile (· != '=')
  match text.toList.dropWhile (· != '=') with
  | _ :: path =>
    if name.isEmpty || path.isEmpty then none else some ⟨String.ofList name, String.ofList path⟩
  | [] => none

/-- What has been asked for. -/
structure Options where
  tables : List TableFile := []
  query : Option String := none
  format : Option Format := none
  debug : Bool := false
  listFunctions : Bool := false
  deriving Repr, DecidableEq

/-- What the arguments come to. -/
inductive Request where
  | run (options : Options)
  | help
  | version
  | refused
  deriving Repr, DecidableEq

/-- An option that takes a value. -/
inductive Setting where
  | table
  | query
  | format
  deriving Repr, DecidableEq

/-- Puts the value of a setting. -/
def Setting.put (s : Setting) (value : String) (o : Options) : Except Request Options :=
  match s with
  | table =>
    match TableFile.ofText? value with
    | some t => .ok { o with tables := o.tables ++ [t] }
    | none => .error .refused
  | query => if o.query.isSome then .error .refused else .ok { o with query := some value }
  | format =>
    match Format.ofName? value with
    | some f => if o.format.isSome then .error .refused else .ok { o with format := some f }
    | none => .error .refused

/-- An option without a value. -/
inductive Switch where
  | debug
  | listFunctions
  | help
  | version
  deriving Repr, DecidableEq

/-- Turns a switch on. -/
def Switch.turnOn (s : Switch) (o : Options) : Except Request Options :=
  match s with
  | debug => if o.debug then .error .refused else .ok { o with debug := true }
  | listFunctions =>
    if o.listFunctions then .error .refused else .ok { o with listFunctions := true }
  | help => .error .help
  | version => .error .version

/-- An option. -/
inductive Flag where
  | setting (s : Setting)
  | switch (s : Switch)
  deriving Repr, DecidableEq

/-- The option with the given long name. -/
def Flag.ofName? : List Char → Option Flag
  | ['t', 'a', 'b', 'l', 'e'] => some (.setting .table)
  | ['q', 'u', 'e', 'r', 'y'] => some (.setting .query)
  | ['f', 'o', 'r', 'm', 'a', 't'] => some (.setting .format)
  | ['d', 'e', 'b', 'u', 'g'] => some (.switch .debug)
  | ['l', 'i', 's', 't', '-', 'f', 'u', 'n', 'c', 't', 'i', 'o', 'n', 's'] =>
    some (.switch .listFunctions)
  | ['h', 'e', 'l', 'p'] => some (.switch .help)
  | ['v', 'e', 'r', 's', 'i', 'o', 'n'] => some (.switch .version)
  | _ => none

/-- The option with the given letter. -/
def Flag.ofLetter? : Char → Option Flag
  | 't' => some (.setting .table)
  | 'q' => some (.setting .query)
  | 'f' => some (.setting .format)
  | 'd' => some (.switch .debug)
  | 'h' => some (.switch .help)
  | 'V' => some (.switch .version)
  | _ => none

/-- What an argument looks like. -/
inductive Word where
  | plain
  /-- No options follow. -/
  | endOfOptions
  | long (name : List Char) (value : Option (List Char))
  | letters (letters : List Char)
  deriving Repr, DecidableEq

/-- Tells what an argument looks like. A single hyphen is plain. -/
def Word.ofText (text : List Char) : Word :=
  match text with
  | ['-', '-'] => endOfOptions
  | '-' :: '-' :: rest =>
    let name := rest.takeWhile (· != '=')
    match rest.dropWhile (· != '=') with
    | _ :: value => long name (some value)
    | [] => long name none
  | ['-'] => plain
  | '-' :: rest => letters rest
  | _ => plain

/-- What has been read of the arguments. -/
structure Reading where
  options : Options := {}
  /-- The setting whose value comes next. -/
  awaits : Option Setting := none
  ended : Bool := false

/-- Reads letters behind one hyphen. -/
def readLetters (o : Options) : List Char → Except Request Reading
  | [] => .ok { options := o }
  | c :: rest =>
    match Flag.ofLetter? c with
    | none => .error .refused
    | some (.switch s) => do readLetters (← s.turnOn o) rest
    | some (.setting s) =>
      match rest with
      | [] => .ok { options := o, awaits := some s }
      | '=' :: value => do return { options := ← s.put (String.ofList value) o }
      | value => do return { options := ← s.put (String.ofList value) o }

/-- Reads a long name. -/
def readLong (o : Options) (name : List Char) (value : Option (List Char)) :
    Except Request Reading :=
  match Flag.ofName? name, value with
  | some (.switch s), none => do return { options := ← s.turnOn o }
  | some (.setting s), none => .ok { options := o, awaits := some s }
  | some (.setting s), some value => do return { options := ← s.put (String.ofList value) o }
  | _, _ => .error .refused

/-- Reads one argument. -/
def readWord (r : Reading) (text : String) : Except Request Reading :=
  if r.ended then .error .refused
  else match r.awaits, Word.ofText text.toList with
    | some s, .plain => do return { options := ← s.put text r.options }
    | some _, _ => .error .refused
    | none, .plain => .error .refused
    | none, .endOfOptions => .ok { r with ended := true }
    | none, .long name value => readLong r.options name value
    | none, .letters letters => readLetters r.options letters

/-- Reads all arguments. -/
def Request.ofArguments (arguments : List String) : Request :=
  match arguments.foldlM readWord {} with
  | .error request => request
  | .ok r => if r.awaits.isSome then .refused else .run r.options

end TableQuery.CommandLine
