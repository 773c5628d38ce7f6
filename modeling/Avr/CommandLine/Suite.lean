import Avr.CommandLine.Outcome
import Avr.Text.Quoted

/-!
# Suites

* `SuiteUnit` : a program of a suite with the output it has to print;
* `units` : the programs of a directory, by name;
* `judge` : whether a unit passes, with the words for it;
* `runSuite` : the report on a suite.
-/

namespace Avr.CommandLine

structure SuiteUnit where
  name : String
  path : String
  source : String
  /-- The output it has to print if that is known, or why it cannot be read. -/
  expected : Except String (Option String)

/-! ## Finding units -/

/-- The name of a program file without its extension `.s`. -/
def stem? (file : String) : Option String :=
  match file.toList.reverse with
  | 's' :: '.' :: c :: cs => some (String.ofList (c :: cs).reverse)
  | _ => none

def expectedOutput (files : Files) (path : String) : Except String (Option String) :=
  match files.find path with
  | .ok (.file contents) => .ok (some contents)
  | .ok (.folder _) => .error (unreadable path .isFolder)
  | .error _ => .ok none

/-- The units among the files of a directory. The expected output of a unit lies beside it, with extension
`.out`. -/
def unitsOf (files : Files) (dir : String) (entries : List (String × String)) : List SuiteUnit :=
  entries.filterMap fun (file, source) =>
    (stem? file).map fun name =>
      ⟨name, joinPath dir file, source, expectedOutput files (joinPath dir (name ++ ".out"))⟩

/-- The units of a directory that are asked for, in order of their names. -/
def units (files : Files) (dir : String) (only : Option String) : Except String (List SuiteUnit) :=
  match files.entries dir with
  | .error e => .error ("could not open suite directory '" ++ dir ++ "': " ++ e.message)
  | .ok entries =>
    let all := unitsOf files dir entries
    match only with
    | none => .ok (all.mergeSort fun u v => decide (u.name ≤ v.name))
    | some name =>
      match all.find? (·.name == name) with
      | some u => .ok [u]
      | none => .error ("no unit named " ++ Text.quoted name ++ " in " ++ dir)

/-! ## Judging units -/

def failed (what detail : String) : Bool × String :=
  let indented := detail.toList.flatMap fun c => if c = '\n' then ['\n', '\t'] else [c]
  (false, paint .red ("FAIL: " ++ what) ++ ":\n\t" ++ String.ofList indented)

/-- Whether a unit passes, and the words for it: its program has to assemble, to finish, and to print what is
expected, each byte taken for the character of that code. The speed of the run is not known and shown as `#`. -/
def judge (limit : StepLimit) (u : SuiteUnit) : Bool × String :=
  match assembleSource u.path u.source none, u.expected with
  | .error problem, _ | .ok _, .error problem => failed "ASSEMBLY ERROR" problem
  | .ok image, .ok expected? =>
    let m := (Machine.start image limit "").run
    match m.condition with
    | .errored fault => failed "RUNTIME ERROR" fault.message
    | .running => failed "RUNTIME ERROR" m.condition.name
    | .finished =>
      match expected?.filter (· != m.console) with
      | some expected =>
        failed "WRONG OUTPUT" ("expected " ++ Text.quoted expected ++ "\ngot      " ++ Text.quoted m.console)
      | none =>
        (true, paint .green "PASS" ++ " " ++ Text.padLeft 7 (toString m.stats.steps) ++ " steps " ++
          Text.padLeft 8 (toString m.stats.cycles) ++ " cycles (#)")

/-! ## The report -/

/-- The line on a unit. Names are filled up to `width` bytes. -/
def unitLine (width number : Nat) (name words : String) : String :=
  "Unit " ++ Text.padLeft 2 (toString number) ++ ": " ++ name ++
    String.ofList (List.replicate (width - name.utf8ByteSize) ' ') ++ " " ++ words ++ "\n"

def reportUnits (name : String) (limit : StepLimit) (us : List SuiteUnit) : Bool × String :=
  let width := (us.map (·.name.utf8ByteSize)).foldl max 0
  let rule := String.ofList (List.replicate (width + 45) '-') ++ "\n"
  let judged := us.map fun u => (u.name, judge limit u)
  let passes := judged.countP (·.2.1)
  let success := passes == us.length
  let body := judged.zipIdx.map fun ((unit, _, words), i) => unitLine width (i + 1) unit words
  (success, "Running suite: '" ++ name ++ "' (" ++ toString us.length ++ " units)\n" ++ rule ++ String.join body ++
    rule ++ "Suite Result: " ++ (if success then paint .green "SUCCESS" else paint .red "FAILED") ++ ", " ++
    toString passes ++ "/" ++ toString us.length ++ " passes\n")

/-- Runs a suite: the directory `name` in `root`, or one unit of it. -/
def runSuite (files : Files) (name root : String) (only : Option String) (limit : StepLimit) : Outcome :=
  match units files (joinPath root name) only with
  | .error problem => .failure problem
  | .ok us =>
    let (success, text) := reportUnits name limit us
    .ofText (if success then 0 else 1) text

end Avr.CommandLine
