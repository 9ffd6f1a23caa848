import SchemaLang.CommandLine

/-!
# The program

Reads the arguments, the standard input and the files that the command consults, runs the command on
what was read, and writes its output and its reports.
-/

namespace SchemaLang

/-- The number of a system error.  Some operations report it negated. -/
def systemErrorNumber (code : UInt32) : Nat := min code.toNat (-code).toNat

/-- Why a file could not be read. -/
def ReadFailure.ofError : IO.Error → ReadFailure
  | .noFileOrDirectory _ _ _ => .missing
  | .inappropriateType _ code _ =>
    if systemErrorNumber code = 21 then .isDirectory else .notDirectory
  | .permissionDenied _ code _ =>
    .refused (systemMessage "Permission denied" (systemErrorNumber code))
  | e@(.invalidArgument _ code _) =>
    if systemErrorNumber code = 36 then .nameTooLong else .refused (toString e)
  | e => .refused (toString e)

/-- Reads a file. -/
def readBytes (name : String) : IO (Except ReadFailure ByteArray) := do
  try return .ok (← IO.FS.readBinFile name)
  catch e => return .error (.ofError e)

/-- Reads the files that a command consults, until it asks for no more. -/
partial def readConsulted (standard : ByteArray) (c : Command)
    (known : List (String × Except ReadFailure ByteArray)) : IO Surroundings := do
  let around : Surroundings := ⟨standard, .ofList known⟩
  match (c.consulted around).filter fun name => (known.lookup name).isNone with
  | [] => return around
  | names =>
    let contents ← names.mapM fun name => return (name, ← readBytes name)
    readConsulted standard c (known ++ contents)

end SchemaLang

/-- Runs the command that the arguments ask for. -/
def main (arguments : List String) : IO UInt32 := do
  match SchemaLang.Command.ofArguments? arguments with
  | none =>
    IO.eprintln "usage: check [-I DIR]... [--deny-unresolved] FILE | print FILE"
    return 2
  | some c =>
    let standard ← match c.input with
      | .standard => (← IO.getStdin).readBinToEnd
      | .file _ => pure .empty
    let outcome := c.run (← SchemaLang.readConsulted standard c [])
    IO.print outcome.output
    for report in outcome.reports do
      for line in report.lines do
        IO.eprintln line
    return outcome.exitCode.toUInt32
