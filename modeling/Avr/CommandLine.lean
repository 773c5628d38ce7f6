import Avr.CommandLine.Command
import Avr.CommandLine.Suite
import Avr.Listing

/-!
# The commands

* `listProgram`, `runProgram`, `stepProgram` : the commands on one program;
* `Command.perform` : the outcome of a command on a tree of files.

A program prints to the output of the command, so the machine has that output for its console.
-/

namespace Avr.CommandLine

/-- A machine whose console is the output of a command. -/
abbrev Session := Machine (Array Byte)

def Session.say (m : Session) (text : String) : Session :=
  { m with console := Console.emit m.console (Text.encodeUtf8 text) }

/-- The listing of a program, and its data behind an empty line. -/
def listProgram (image : Image) (omitData : Bool) : String :=
  if !omitData && ramStart < image.dataEnd then image.listing ++ "\n" ++ image.dataDump else image.listing

/-- One step, after which the machine is shown if an instruction was executed. -/
def Session.showStep (m : Session) : Session :=
  let before := m.stats.steps
  let next := m.step
  if next.stats.steps = before then next else Session.say next ((Snapshot.of next).text ++ "\n")

/-- Steps until the machine stops, at most `fuel` of them, the machine being shown after each instruction. -/
def Session.showRun : Nat → Session → Session
  | 0, m => m
  | n + 1, m =>
    let m := m.showStep
    if m.isRunning then Session.showRun n m else m

def runProgram (image : Image) (limit : StepLimit) (verbose : Bool) : Outcome :=
  let m : Session := Machine.start image limit #[]
  let m := if verbose then Session.showRun m.fuel m else m.run
  let m := Session.say m ("\n" ++ summary (Snapshot.of m))
  ⟨if m.condition = .finished then 0 else 1, m.console, ""⟩

/-- Steps while the machine goes on, at most `n` of them, the machine being shown after each. -/
def Session.showSteps : Nat → Session → Session
  | 0, m => m
  | n + 1, m =>
    let m := m.step
    if m.isRunning then Session.showSteps n (Session.say m ((Snapshot.of m).text ++ "\n\n")) else m

def stepProgram (image : Image) (count : Nat) : Outcome :=
  let m := Session.showSteps count (Machine.start image StepLimit.standard #[])
  let m := Session.say m (summary (Snapshot.of m))
  ⟨if m.condition.fault?.isSome then 1 else 0, m.console, ""⟩

/-- What a command leaves behind when it works on a program file. -/
def onProgram (files : Files) (path : String) (breakpoint : Option Nat) (f : Image → Outcome) : Outcome :=
  match assembleFile files path breakpoint with
  | .ok image => f image
  | .error problem => .failure problem

def Command.perform (files : Files) : Command → Outcome
  | .asm path omitData => onProgram files path none fun image => .ofText 0 (listProgram image omitData)
  | .run path limit verbose breakpoint =>
    onProgram files path breakpoint fun image => runProgram image limit verbose
  | .step path count => onProgram files path none fun image => stepProgram image count
  | .suite name root only limit => runSuite files name root only limit

end Avr.CommandLine
