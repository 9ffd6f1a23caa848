import SchemaLang.Session

/-!
# The command line

There are two commands.  `check FILE` checks a schema and all that it imports; its options add include
directories and turn unresolved names into errors.  `print FILE` prints a schema in canonical form.  A
single dash stands for the standard input.
-/

namespace SchemaLang

/-! ## Arguments -/

/-- Where a schema is read from. -/
inductive Input where
  | standard
  | file (name : String)
deriving DecidableEq

/-- The input that an argument names. -/
def Input.ofArgument (argument : String) : Input :=
  if argument = "-" then .standard else .file argument

/-- What the command line asks for. -/
inductive Command where
  | check (input : Input) (includeDirs : List String) (denyUnresolved : Bool)
  | print (input : Input)
deriving DecidableEq

/-- The arguments of a command as far as they are read. -/
structure Arguments where
  inputs : List String
  includeDirs : List String
  denials : Nat

namespace Arguments

/-- No arguments. -/
def none : Arguments := ⟨[], [], 0⟩

/-- Adds arguments that are no options. -/
def addInputs (names : List String) (a : Arguments) : Arguments :=
  { a with inputs := a.inputs ++ names }

/-- Adds an include directory, which must have a name. -/
def addIncludeDir (dir : List Char) (a : Arguments) : Option Arguments :=
  if dir.isEmpty then .none
  else some { a with includeDirs := a.includeDirs ++ [String.ofList dir] }

/-- The argument may stand for a value after an option: it is no option itself. -/
def isValue : List Char → Bool
  | '-' :: _ :: _ => false
  | _ => true

/-- The directory that is attached to an option for it, if the argument is such an option. -/
def attachedDir? (argument : List Char) : Option (List Char) :=
  match "--import-path=".toList.isPrefixOf? argument with
  | some dir => some dir
  | .none =>
    match argument with
    | '-' :: 'I' :: '=' :: dir => some dir
    | '-' :: 'I' :: c :: dir => some (c :: dir)
    | _ => .none

/-- Reads the arguments of `check`.  Options may come anywhere before a double dash. -/
def readCheck (a : Arguments) : List String → Option Arguments
  | [] => some a
  | "--" :: names => some (a.addInputs names)
  | "--deny-unresolved" :: rest => { a with denials := a.denials + 1 }.readCheck rest
  | "-I" :: dir :: rest => do
    guard (isValue dir.toList)
    (← a.addIncludeDir dir.toList).readCheck rest
  | "--import-path" :: dir :: rest => do
    guard (isValue dir.toList)
    (← a.addIncludeDir dir.toList).readCheck rest
  | argument :: rest =>
    match attachedDir? argument.toList with
    | some dir => do (← a.addIncludeDir dir).readCheck rest
    | .none => do
      guard (isValue argument.toList)
      (a.addInputs [argument]).readCheck rest

/-- Reads the arguments of `print`, which has no options. -/
def readPrint (a : Arguments) : List String → Option Arguments
  | [] => some a
  | "--" :: names => some (a.addInputs names)
  | argument :: rest => do
    guard (isValue argument.toList)
    (a.addInputs [argument]).readPrint rest

end Arguments

/-- The command that the arguments of the program ask for, unless they are wrong. -/
def Command.ofArguments? : List String → Option Command
  | "check" :: rest => do
    match ← Arguments.none.readCheck rest with
    | ⟨[input], dirs, denials⟩ =>
      if denials ≤ 1 then some (.check (.ofArgument input) dirs (denials = 1)) else none
    | _ => none
  | "print" :: rest => do
    match ← Arguments.none.readPrint rest with
    | ⟨[input], _, _⟩ => some (.print (.ofArgument input))
    | _ => none
  | _ => none

/-! ## Running a command -/

/-- What a program can read: its standard input and files. -/
structure Surroundings where
  standard : ByteArray
  files : Files

/-- What a command comes to. -/
structure Outcome where
  exitCode : Nat
  output : String
  reports : List Report

namespace Input

/-- The name that reports show for an input. -/
def name : Input → String
  | .standard => "<stdin>"
  | .file name => name

/-- The text of an input. -/
def read (around : Surroundings) : Input → Except ReadFailure String
  | .standard => textOfBytes around.standard
  | .file name => around.files.readText name

/-- The directory in which the imports of an input are looked up first. -/
def baseDir? : Input → Option String
  | .standard => some "."
  | .file name => FileName.parent? name

end Input

namespace Command

/-- The session that a command begins with. -/
def session : Command → Session
  | .check _ dirs deny => { Session.fresh with includeDirs := dirs, denyUnresolved := deny }
  | .print _ => .fresh

/-- The input of a command. -/
def input : Command → Input
  | .check input _ _ => input
  | .print input => input

/-- Runs a command.  It ends with code 1 if anything was reported that is a failure. -/
def run (around : Surroundings) (c : Command) : Outcome :=
  let ended (output : String) (s : Session) : Outcome :=
    ⟨if s.failed then 1 else 0, output, s.log.toList⟩
  match c.session.loadRead c.input.name (c.input.read around) with
  | (none, s) => ended "" s
  | (some id, s) =>
    match c with
    | .check input _ _ => ended "" (s.check around.files input.baseDir? id)
    | .print _ =>
      let (text, s) := s.print id
      ended (text.getD "") s

/-- The names of the files that a command tries to read. -/
def consulted (around : Surroundings) (c : Command) : List String :=
  let own := match c.input with
    | .standard => []
    | .file name => [name]
  match c with
  | .print _ => own
  | .check input dirs _ =>
    let search : ImportSearch := ⟨input.baseDir?, dirs⟩
    let imported := match input.read around with
      | .error _ => []
      | .ok text =>
        match Module.parse text with
        | .error _ => []
        | .ok m =>
          let source := search.source around.files text.utf8ByteSize
          (resolve (some source) m).requested.toList.flatMap search.candidates
    own ++ imported

end Command

end SchemaLang
