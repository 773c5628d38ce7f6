import Avr.StepLimit

/-!
# Command lines

* `Command` : the four commands with their settings;
* `Setting` : the options, long and short, that commands take;
* `readArguments?` : the arguments of a command, sorted into options and the others;
* `Command.ofArguments?` : the command that a list of arguments asks for.

An option with a value takes it from the same argument, after equals signs or directly behind its letter, or
from the next one. Letters of options without values may share a dash. What follows an equals sign behind the
name of an option without a value is passed over.
-/

namespace Avr.CommandLine

inductive Command
  /-- List the program at a path, and its data unless they are left out. -/
  | asm (path : String) (omitData : Bool)
  /-- Run the program at a path. -/
  | run (path : String) (limit : StepLimit) (verbose : Bool) (breakpoint : Option Nat)
  /-- Execute a number of instructions of the program at a path. -/
  | step (path : String) (count : Nat)
  /-- Run the programs of a directory, or one of them. -/
  | suite (name root : String) (only : Option String) (limit : StepLimit)
deriving DecidableEq, Repr

/-- The options. -/
inductive Setting
  | noData | verbose | maxSteps | breakpoint | count | only
deriving DecidableEq, Repr

namespace Setting

def long : Setting → String
  | noData => "no-data"
  | verbose => "verbose"
  | maxSteps => "max-steps"
  | breakpoint => "breakpoint"
  | count => "count"
  | only => "only"

def letter : Setting → Char
  | noData => 'n'
  | verbose => 'v'
  | maxSteps => 'm'
  | breakpoint => 'b'
  | count => 'c'
  | only => 'o'

def hasValue : Setting → Bool
  | noData | verbose => false
  | _ => true

end Setting

/-! ## Arguments -/

/-- The arguments read so far: the options with their values, and the others. -/
structure Arguments where
  settings : List (Setting × String) := []
  others : List String := []

namespace Arguments

def set (a : Arguments) (s : Setting) (value : String) : Arguments := { a with settings := a.settings ++ [(s, value)] }

def value? (a : Arguments) (s : Setting) : Option String := a.settings.lookup s

def has (a : Arguments) (s : Setting) : Bool := (a.value? s).isSome

end Arguments

/-- Options written as letters behind a dash: the arguments with them, and the option that still wants its value
from the next argument. -/
def readLetters? (allowed : List Setting) (a : Arguments) : List Char → Option (Arguments × Option Setting)
  | [] => some (a, none)
  | c :: cs => (allowed.find? (·.letter == c)).bind fun s =>
    if s.hasValue then
      if cs.isEmpty then some (a, some s) else some (a.set s (String.ofList (cs.dropWhile (· == '='))), none)
    else readLetters? allowed (a.set s "") cs

/-- An option written by its name behind two or more dashes. -/
def readLong? (allowed : List Setting) (a : Arguments) (cs : List Char) : Option (Arguments × Option Setting) :=
  let name := String.ofList (cs.takeWhile (· != '='))
  let value := cs.dropWhile (· != '=')
  (allowed.find? (·.long == name)).map fun s =>
    if !s.hasValue then (a.set s "", none)
    else if value.isEmpty then (a, some s)
    else (a.set s (String.ofList (value.dropWhile (· == '='))), none)

/-- The arguments of a command that takes the options `allowed`, after those of `a`. -/
def readArguments? (allowed : List Setting) (a : Arguments) : List String → Option Arguments
  | [] => some a
  | arg :: rest =>
    let read? : Option (Arguments × Option Setting) :=
      match arg.toList with
      | '-' :: '-' :: cs => readLong? allowed a (cs.dropWhile (· == '-'))
      | '-' :: c :: cs => readLetters? allowed a (c :: cs)
      | _ => some ({ a with others := a.others ++ [arg] }, none)
    if arg = "--" then some { a with others := a.others ++ rest }
    else match read?, rest with
      | some (a, none), rest => readArguments? allowed a rest
      | some (a, some s), value :: rest => readArguments? allowed (a.set s value) rest
      | _, _ => none

/-! ## Commands -/

/-- A number given as the value of an option; without the option, `missing`. -/
def numberOr? (missing : Option Nat) : Option String → Option (Option Nat)
  | none => some missing
  | some text => (Text.readUnsigned? text.toList).toOption.map some

def limit? : Option String → Option StepLimit
  | none => some StepLimit.standard
  | some text => (StepLimit.ofText? text).toOption

def asm? (args : List String) : Option Command := do
  let a ← readArguments? [.noData] {} args
  match a.others with
  | [path] => some (.asm path (a.has .noData))
  | _ => none

def run? (args : List String) : Option Command := do
  let a ← readArguments? [.maxSteps, .verbose, .breakpoint] {} args
  let limit ← limit? (a.value? .maxSteps)
  let breakpoint ← numberOr? none (a.value? .breakpoint)
  match a.others with
  | [path] => some (.run path limit (a.has .verbose) breakpoint)
  | _ => none

def step? (args : List String) : Option Command := do
  let a ← readArguments? [.count] {} args
  let count ← numberOr? (some 1) (a.value? .count)
  match a.others with
  | [path] => some (.step path (count.getD 1))
  | _ => none

def suite? (args : List String) : Option Command := do
  let a ← readArguments? [.only, .maxSteps] {} args
  let limit ← limit? (a.value? .maxSteps)
  match a.others with
  | [name] => some (.suite name "asm" (a.value? .only) limit)
  | [name, root] => some (.suite name root (a.value? .only) limit)
  | _ => none

def Command.ofArguments? : List String → Option Command
  | "asm" :: args => asm? args
  | "run" :: args => run? args
  | "step" :: args => step? args
  | "suite" :: args => suite? args
  | _ => none

end Avr.CommandLine
