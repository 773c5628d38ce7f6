import Avr.CommandLine.Files
import Avr.Snapshot
import Avr.Text.Lines
import Avr.Text.WhiteSpace

/-!
# What a command leaves behind

* `Outcome` : the exit code and what was written to the two outputs;
* `Color`, `paint` : coloured text;
* `assembleFile` : the image of a file, or what is wrong with it in words;
* `summary` : how a run ended.
-/

namespace Avr.CommandLine

/-- What a command leaves behind: its exit code, and the bytes and text that it has written. -/
structure Outcome where
  exit : Nat
  output : Array Byte
  errors : String

def Outcome.ofText (exit : Nat) (text : String) : Outcome := ⟨exit, (Text.encodeUtf8 text).toArray, ""⟩

/-! ## Colours -/

inductive Color
  | red | green | yellow
deriving DecidableEq, Repr

def paint (c : Color) (s : String) : String :=
  let code := match c with
    | .red => "31"
    | .green => "32"
    | .yellow => "33"
  "\x1b[1;" ++ code ++ "m" ++ s ++ "\x1b[0m"

def Outcome.failure (problem : String) : Outcome := ⟨2, #[], paint .red "error" ++ ": " ++ problem ++ "\n"⟩

/-! ## Programs -/

def unreadable (path : String) (e : FileError) : String := "could not read '" ++ path ++ "': " ++ e.message

/-- A diagnostic about the program at a path, with the line it is about. -/
def report (path source : String) (d : Diagnostic) : String :=
  let quotedLine? := d.loc.bind fun loc => ((Text.lines source.toList)[loc.line - 1]?).map (loc, ·)
  let context := match quotedLine? with
    | some (loc, line) => path ++ " " ++ loc.text ++ ":\n    " ++ String.ofList (Text.trim line)
    | none => path
  context ++ ": " ++ d.message

def assembleSource (path source : String) (breakpointLine : Option Nat) : Except String Image :=
  match assemble source breakpointLine with
  | .ok image => .ok image
  | .error d => .error (report path source d)

def assembleFile (files : Files) (path : String) (breakpointLine : Option Nat) : Except String Image :=
  match files.read path with
  | .ok source => assembleSource path source breakpointLine
  | .error e => .error (unreadable path e)

/-! ## Summaries -/

def paintCondition : Condition → String
  | .finished => paint .green "FINISHED"
  | .running => paint .yellow "RUNNING"
  | .errored _ => paint .red "ERRORED"

/-- How a run ended: a line on the condition and the counters, and a line on the fault, if there is one. -/
def summary (s : Snapshot) : String :=
  let place := match s.line with
    | some line => " (line " ++ toString line ++ ")"
    | none => ""
  paintCondition s.condition ++ " at PC " ++ Text.hexAddress s.pc ++ place ++ " after " ++
    toString s.stats.steps ++ " steps (~" ++ toString s.stats.cycles ++ " cycles)\n" ++
    match s.error? with
    | some e => paint .red "runtime error" ++ ": " ++ e ++ "\n"
    | none => ""

end Avr.CommandLine
