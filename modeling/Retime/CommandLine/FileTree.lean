import Retime.CommandLine.Run

/-! # File trees

Directories and files in memory, by their paths from a working directory. Every
part of a path but the last leads to a directory. The directories above the working
directory are there as well; a path that does not start in the working directory
leads nowhere.
-/

namespace Retime.CommandLine

inductive Entry where
  | directory
  | file (content : String)
deriving DecidableEq, Repr

/-- The entries apart from the working directory and those above it, by path. -/
structure FileTree where
  entries : List (List String × Entry) := []

namespace FileTree

/-- Whether a path leads to the working directory or to one above it. -/
def isUpward (path : List String) : Bool :=
  path.all (· = "..")

def entry? (t : FileTree) (path : List String) : Option Entry :=
  if isUpward path then some .directory else t.entries.lookup path

/-- Puts an entry in the place of the one that was there. -/
def put (t : FileTree) (path : List String) (e : Entry) : FileTree where
  entries := t.entries.filter (·.1 ≠ path) ++ [(path, e)]

/-- The path of the directory that a directory lies in. -/
def above (path : List String) : List String :=
  if isUpward path then path ++ [".."] else path.dropLast

/-- The largest number of bytes in a text that names an entry. -/
def maxText : Nat := 4095

/-- The largest number of bytes in one name. -/
def maxName : Nat := 255

/-- The entry of a name in a directory. -/
def look (t : FileTree) (directory : List String) (name : String) : Except FileError Entry :=
  match t.entry? (directory ++ [name]) with
  | some e => .ok e
  | none => .error (if name.utf8ByteSize ≤ maxName then .notFound else .nameTooLong)

/-- What stands between the slashes of a text. -/
def betweenSlashes : List Char → List (List Char)
  | [] => [[]]
  | '/' :: s => [] :: betweenSlashes s
  | c :: s =>
    match betweenSlashes s with
    | [] => [[c]]
    | name :: names => (c :: name) :: names

/-- The parts of a text that names an entry. -/
def parts (text : String) : Except FileError (List String) :=
  if maxText < text.utf8ByteSize then .error .nameTooLong
  else if text.toList.head? = some '/' then .error .notFound
  else .ok (((betweenSlashes text.toList).filter (· ≠ [])).map String.ofList)

/-- The parts that lead elsewhere: a dot stays where it is. -/
def steps (parts : List String) : List String :=
  parts.filter (· ≠ ".")

/-- Whether a text with these parts is about a directory whatever is there. -/
def namesDirectory (text : String) (parts : List String) : Bool :=
  text.toList.getLast? = some '/' || match parts.getLast? with
    | none => true
    | some last => last = "." ∨ last = ".."

/-- Goes from a directory to a directory, through directories all the way. -/
def walk (t : FileTree) (start : List String) : List String → Except FileError (List String)
  | [] => .ok start
  | ".." :: names => walk t (above start) names
  | name :: names => do
    match ← t.look start name with
    | .directory => walk t (start ++ [name]) names
    | .file _ => .error .notDirectory

/-- The place of the file that a text names: a directory, and the name in it. -/
def place (t : FileTree) (text : String) : Except FileError (List String × String) := do
  let parts ← parts text
  if namesDirectory text parts then
    let _ ← t.walk [] (steps parts)
    .error .isDirectory
  else return (← t.walk [] (steps parts.dropLast), parts.getLastD "")

def read (t : FileTree) (text : String) : Except FileError String := do
  let (directory, name) ← t.place text
  match ← t.look directory name with
  | .file content => .ok content
  | .directory => .error .isDirectory

def write (t : FileTree) (text content : String) : Except FileError FileTree := do
  let (directory, name) ← t.place text
  match t.look directory name with
  | .ok .directory => .error .isDirectory
  | .ok (.file _) | .error .notFound => .ok (t.put (directory ++ [name]) (.file content))
  | .error e => .error e

/-- Makes a directory unless it is there. Those it lies in have to be there. -/
def makeOne (t : FileTree) (names : List String) : Except FileError FileTree := do
  match names.getLast? with
  | none => .ok t
  | some ".." => (t.walk [] names).map fun _ => t
  | some name =>
    let directory ← t.walk [] names.dropLast
    match t.look directory name with
    | .ok .directory => .ok t
    | .ok (.file _) => .error .alreadyThere
    | .error .notFound => .ok (t.put (directory ++ [name]) .directory)
    | .error e => .error e

/-- Changes a tree, after some preparation if something was missing. What was prepared
stays, also if the change fails in the end. -/
def prepared (t : FileTree) (prepare : Unit → FileTree × Except FileError Unit)
    (change : FileTree → Except FileError FileTree) : FileTree × Except FileError Unit :=
  let attempt (t : FileTree) : FileTree × Except FileError Unit :=
    match change t with
    | .ok t => (t, .ok ())
    | .error e => (t, .error e)
  match attempt t with
  | (_, .error .notFound) =>
    match prepare () with
    | (t, .ok ()) => attempt t
    | r => r
  | r => r

/-- Makes a directory and those it lies in. Its names are given in reverse. -/
def makeAll (t : FileTree) : List String → FileTree × Except FileError Unit
  | [] => (t, .ok ())
  | name :: names => t.prepared (fun _ => makeAll t names) (makeOne · (name :: names).reverse)

/-- Makes a directory and those it lies in. What a dot at the end of the text stands
for is not made: only the directories above it are, and it has to be there then. -/
def makeDirectory (t : FileTree) (text : String) : FileTree × Except FileError Unit :=
  match parts text with
  | .error e => (t, .error e)
  | .ok parts =>
    let names := steps parts
    if parts.getLast? = some "." then
      t.prepared (fun _ => t.makeAll names.dropLast.reverse)
        fun t => (t.walk [] names).map fun _ => t
    else t.makeAll names.reverse

/-- The operations on a tree. -/
def fileSystem : FileSystem (StateM FileTree) where
  read path := return ((← get).read path).map String.toUTF8
  makeDirectory path := modifyGet fun t => (t.makeDirectory path).swap
  write path content := modifyGet fun t =>
    match t.write path content with
    | .ok t => (.ok (), t)
    | .error e => (.error e, t)

end FileTree

end Retime.CommandLine
