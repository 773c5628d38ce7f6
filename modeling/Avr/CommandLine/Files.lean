/-!
# Paths and files

* `joinPath`, `names` : paths and the names along them;
* `Place` : where a file or folder is, and `Place.step` where a name leads from there;
* `Files` : the files and folders of a tree, and `Node` one of them;
* `Files.find` : the node that a path leads to; what stands before a slash must be a folder;
* `Files.read`, `Files.entries` : the contents of a file, and the files that a folder holds;
* `FileError` : why a path cannot be opened.
-/

namespace Avr.CommandLine

/-! ## Paths -/

/-- The second path seen from the first. -/
def joinPath (dir path : String) : String :=
  if path.startsWith "/" || dir.isEmpty then path
  else if dir.endsWith "/" then dir ++ path
  else dir ++ "/" ++ path

def slashPieces (cs : List Char) : List (List Char) :=
  cs.foldr (fun c pieces =>
    if c = '/' then [] :: pieces
    else match pieces with
      | [] => [[c]]
      | p :: rest => (c :: p) :: rest) [[]]

/-- The names along a path, empty ones included. -/
def names (path : String) : List String := (slashPieces path.toList).map String.ofList

/-- Where a file or folder is: the names that lead to it from the working folder, the last one first. A place
counted from the root of the system begins with a slash, one above the working folder with pairs of dots. -/
abbrev Place := List String

namespace Place

def start (path : String) : Place := if path.startsWith "/" then ["/"] else []

def outside : Place → Place
  | [] => [".."]
  | ["/"] => ["/"]
  | ".." :: p => ".." :: ".." :: p
  | _ :: p => p

def step (p : Place) (name : String) : Place :=
  if name = "" || name = "." then p
  else if name = ".." then p.outside
  else name :: p

/-- The places from which names lead on, one after the other. -/
def passed (p : Place) : List String → List Place
  | [] => []
  | name :: names => p :: (p.step name).passed names

end Place

/-! ## Trees -/

/-- Why a path cannot be opened. -/
inductive FileError
  | notFound
  | notFolder
  | isFolder
  | nameTooLong
deriving DecidableEq, Repr

namespace FileError

def message : FileError → String
  | notFound => "No such file or directory (os error 2)"
  | notFolder => "Not a directory (os error 20)"
  | isFolder => "Is a directory (os error 21)"
  | nameTooLong => "File name too long (os error 36)"

end FileError

/-- What a path leads to: a file, given by its contents, or a folder, given by its place. -/
inductive Node
  | file (contents : String)
  | folder (place : Place)
deriving DecidableEq, Repr

structure Files where
  folders : List Place
  files : List (Place × String)

namespace Files

/-- A tree of files given by their paths, with the folders that the paths pass through. -/
def ofPaths (files : List (String × String)) : Files where
  folders := files.flatMap fun (path, _) => (Place.start path).passed (names path)
  files := files.map fun (path, contents) => ((names path).foldl Place.step (Place.start path), contents)

/-- Whether there is a folder at a place. The working folder, those around it, and the root always are. -/
def hasFolder (t : Files) (p : Place) : Bool := p.all (· == "..") || p == ["/"] || t.folders.contains p

def node? (t : Files) (p : Place) : Option Node :=
  match t.files.lookup p with
  | some contents => some (.file contents)
  | none => if t.hasFolder p then some (.folder p) else none

def nameLimit : Nat := 255

def pathLimit : Nat := 4095

def enter (t : Files) (p : Place) (name : String) : Except FileError Node :=
  if nameLimit < name.utf8ByteSize then .error .nameTooLong
  else match t.node? (p.step name) with
    | some node => .ok node
    | none => .error .notFound

/-- The node that names lead to, one after the other. Names lead on from folders only. -/
def follow (t : Files) : Node → List String → Except FileError Node
  | node, [] => .ok node
  | .file _, _ :: _ => .error .notFolder
  | .folder p, name :: names => do t.follow (← t.enter p name) names

/-- The node that a path leads to. The empty path leads nowhere. -/
def find (t : Files) (path : String) : Except FileError Node :=
  if path.isEmpty then .error .notFound
  else if pathLimit < path.utf8ByteSize then .error .nameTooLong
  else t.follow (.folder (Place.start path)) (names path)

def read (t : Files) (path : String) : Except FileError String := do
  match ← t.find path with
  | .file contents => return contents
  | .folder _ => throw .isFolder

/-- The files directly in a folder, names and contents. -/
def entries (t : Files) (path : String) : Except FileError (List (String × String)) := do
  match ← t.find path with
  | .file _ => throw .notFolder
  | .folder p => return t.files.filterMap fun (place, contents) =>
    match place with
    | name :: outer => if outer = p then some (name, contents) else none
    | [] => none

end Files

end Avr.CommandLine
