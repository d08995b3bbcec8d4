import Retime.CommandLine.Options
import Retime.Library.Batch
import Retime.Library.Chart
import Retime.Library.Generate
import Retime.Settings.Reader

/-! # Plans

A run of the program decides which files it writes before it writes the first one.
-/

namespace Retime.CommandLine

/-- What a run tells on its own account. -/
inductive Notice where
  | zeroSize (option : OptionName)
  | badSettings (path : Option String) (e : SettingsError)
  | failed (f : Failure)
  | notWritten (path : String) (e : FileError)
  | wrote (path : String)
deriving DecidableEq

/-- Causes that are about a file are preceded by its path. -/
def Notice.text : Notice → String
  | zeroSize option => s!"opgen: error: {option.long} must be at least 1"
  | badSettings path e =>
    match path, e with
    | some path, .unreadable _ | some path, .malformed => s!"opgen: error: {path}: {e.message}"
    | _, _ => s!"opgen: error: {e.message}"
  | failed f => s!"opgen: {f.message}"
  | notWritten path e => s!"opgen: error: {path}: {e.message}"
  | wrote path => s!"opgen: wrote {path}"

/-- The sizes, with the options that set them. -/
def sizeOptions (s : Sizes) : List (OptionName × Nat) :=
  [(.width, s.width), (.count, s.count), (.we, s.exponent), (.wf, s.fraction)]

/-- The settings of a run, given what reading their file came to, if there is one. -/
def Options.settings (o : Options) (content : Option (Except FileError ByteArray)) :
    Except SettingsError Settings := do
  let s ← match content with
    | some content => Settings.load content
    | none => .ok {}
  let s :=
    { s with
      frequencyMhz := o.frequencyMhz.getD s.frequencyMhz
      pipelined := s.pipelined && !o.notPipelined }
  s.check
  return s

/-- The files of a stage, by name. -/
def Stage.files (lib : Library) (modules : List ModuleFile) : Stage → List (String × String)
  | verilog => modules.map fun m => (m.fileName, m.text)
  | timing => [("timing.mmd", lib.chart)]
  | manifest => [("manifest.json", (lib.manifest modules).pretty)]

/-- What a run is going to do. -/
structure Plan where
  /-- What is reported up to this point. -/
  events : List Event := []
  /-- The files to write, or what prevents that, with the exit code. -/
  files : Except (Nat × Notice) (List (String × String))

/-- The plan of a run with those settings. -/
def planWith (kind : Kind) (stage : Stage) (settings : Settings) : Plan :=
  let o := Library.generate kind (.ofSettings settings)
  { events := .clock settings.period settings.pipelined :: o.events
    files :=
      match o.result.bind fun _ => o.state.batch with
      | .error f => .error (1, .failed f)
      | .ok modules => .ok (stage.files o.state modules) }

/-- The plan of a run, given what reading the settings file came to, if there is one. -/
def plan (family : Family) (o : Options) (content : Option (Except FileError ByteArray)) :
    Plan :=
  match (sizeOptions o.sizes).find? (·.2 = 0) with
  | some (option, _) => { files := .error (2, .zeroSize option) }
  | none =>
    match o.settings content with
    | .error e => { files := .error (2, .badSettings o.config e) }
    | .ok settings => planWith (family.kind o.sizes) o.emit settings

end Retime.CommandLine
