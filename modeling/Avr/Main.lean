import Avr.CommandLine

/-!
# The program

`main` performs a command on the files it needs. For a suite, the paths of the files that belong to it are read
from standard input, one a line.
-/

namespace Avr.CommandLine

/-- The path of the program that a command works on; a suite has none. -/
def Command.program? : Command → Option String
  | .asm path _ | .run path .. | .step path _ => some path
  | .suite .. => none

/-- The contents of a file, unless it cannot be read. -/
def readContents? (path : String) : IO (Option String) := do
  try
    return some (← IO.FS.readFile path)
  catch _ => return none

def readFiles (paths : List String) : IO Files := do
  let files ← paths.filterMapM fun path => do return (← readContents? path).map (path, ·)
  return Files.ofPaths files

/-- The lines of standard input that are not empty. -/
def readPaths : IO (List String) := do
  let text ← (← IO.getStdin).readToEnd
  return ((Text.lines text.toList).map String.ofList).filter (!·.isEmpty)

def Command.carryOut (command : Command) : IO UInt32 := do
  let paths ← match command.program? with
    | some path => pure [path]
    | none => readPaths
  let outcome := command.perform (← readFiles paths)
  let output ← IO.getStdout
  output.write (ByteArray.mk (outcome.output.map fun b => ⟨b⟩))
  output.flush
  (← IO.getStderr).putStr outcome.errors
  return UInt32.ofNat outcome.exit

end Avr.CommandLine

def main (args : List String) : IO UInt32 :=
  match Avr.CommandLine.Command.ofArguments? args with
  | some command => command.carryOut
  | none => do
    (← IO.getStderr).putStrLn "usage: asm | run | step | suite"
    return 1
