import SchemaGraph.Command.Basic

/-!
# The program

Reads what a command asks for, runs it, and prints or writes its answer.
-/

namespace SchemaGraph

/-- The contents of a file, if it is there and is text. -/
def readText? (path : String) : IO (Option String) := do
  try return some (← IO.FS.readFile path) catch _ => return none

/-- Everything on the standard input, if it is text. -/
def readStandardInput? : IO (Option String) := do
  return String.fromUTF8? (← (← IO.getStdin).readBinToEnd)

/-- Report a failure. -/
def fail (failure : Failure) : IO UInt32 := do
  IO.eprint failure.report
  return 1

/-- Run a command. -/
def execute (command : Command) : IO UInt32 := do
  let standardInput? ← if command.readsStandardInput then readStandardInput? else pure none
  let files ← command.paths.mapM fun path => return (path, ← readText? path)
  match command.run ⟨standardInput?, fun path => (files.lookup path).join⟩ with
  | .error failure => fail failure
  | .ok answer =>
    IO.print answer.printed
    let exit : UInt32 := if answer.hasErrors then 1 else 0
    match answer.written with
    | none => return exit
    | some (path, contents) =>
      try
        IO.FS.writeFile path contents
        return exit
      catch _ => fail (.unwritableFile path)

end SchemaGraph

def main (arguments : List String) : IO UInt32 := do
  match SchemaGraph.Command.ofArguments? arguments with
  | some command => SchemaGraph.execute command
  | none =>
    IO.eprintln "usage: [-v] [-q] compile [INPUT] [-d DIALECT] [--strict] [-c FILE]"
    IO.eprintln "                         [-o FILE] [--pretty]"
    IO.eprintln "       [-v] [-q] lint [INPUT] [-d DIALECT]"
    IO.eprintln "       [-v] [-q] complete INPUT [PREFIX] [--explicit]"
    return 2
