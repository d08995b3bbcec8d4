import Retime.CommandLine.Plan

/-! # Runs

A run works on files through a few operations, so that it can be carried out on a
disk as well as on a tree in memory.
-/

namespace Retime.CommandLine

/-- Operations on files. -/
structure FileSystem (m : Type → Type) where
  read : String → m (Except FileError ByteArray)
  /-- Makes a directory, together with those it lies in, unless it is there. -/
  makeDirectory : String → m (Except FileError Unit)
  write : (path content : String) → m (Except FileError Unit)

/-- What a run leaves behind besides files. -/
structure Report where
  exit : Nat
  events : List Event := []
  notices : List Notice := []
  output : String := ""

/-- The path of a file in a directory. -/
def inDirectory (directory name : String) : String :=
  if directory.endsWith "/" then directory ++ name else directory ++ "/" ++ name

def helpText : String :=
  "Usage: opgen [OPTIONS] <KIND>\n\nKinds:\n"
    ++ String.join (Family.all.map fun f => "  " ++ f.name ++ "\n")
    ++ "\nOptions:\n"
    ++ String.join (OptionName.all.map fun n =>
      "  " ++ n.long ++ (if n.takesValue then " <VALUE>\n" else "\n"))

variable {m : Type → Type} [Monad m]

/-- Writes files one after another, up to the first that cannot be written, and
gives the notice of each. -/
def writeFiles (fs : FileSystem m) (directory : String) :
    List (String × String) → m (List Notice × Bool)
  | [] => pure ([], true)
  | (name, text) :: files => do
    let path := inDirectory directory name
    match ← fs.write path text with
    | .ok () =>
      let (notices, complete) ← writeFiles fs directory files
      return (.wrote path :: notices, complete)
    | .error e => return ([.notWritten path e], false)

/-- Writes files to a directory, which is made first. -/
def writeTo (fs : FileSystem m) (directory : String) (files : List (String × String)) :
    m (List Notice × Bool) := do
  match ← fs.makeDirectory directory with
  | .ok () => writeFiles fs directory files
  | .error e => return ([.notWritten directory e], false)

/-- Files that are written are told of on request only. -/
def Options.shows (o : Options) : Notice → Bool
  | .wrote _ => o.verbose
  | _ => true

def Options.logs (o : Options) (e : Event) : Bool :=
  o.verbose || e.level ≠ .debug

/-- Generates an operator and writes it. -/
def generate (fs : FileSystem m) (family : Family) (o : Options) : m Report := do
  let content ← match o.config with
    | some path => some <$> fs.read path
    | none => pure none
  let p := plan family o content
  let events := p.events.filter o.logs
  match p.files with
  | .error (exit, notice) => return { exit, events, notices := [notice] }
  | .ok files =>
    let (notices, complete) ← writeTo fs o.output files
    return { exit := if complete then 0 else 2, events, notices := notices.filter o.shows }

/-- Runs the program with the arguments after its name. -/
def run (fs : FileSystem m) (args : List String) : m Report :=
  match Command.ofArguments args with
  | .misuse => return { exit := 2 }
  | .showHelp => return { exit := 0, output := helpText }
  | .showVersion => return { exit := 0, output := s!"opgen {version}\n" }
  | .generate family o => generate fs family o

end Retime.CommandLine
