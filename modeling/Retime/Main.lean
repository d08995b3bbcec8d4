import Retime.CommandLine.Run

/-! # The program -/

namespace Retime.CommandLine

def fileError : IO.Error → FileError
  | .noFileOrDirectory .. => .notFound
  | .alreadyExists .. => .alreadyThere
  | e => .other e.toString

/-- The operations on the disk. -/
def disk : FileSystem IO where
  read path := try .ok <$> IO.FS.readBinFile path catch e => pure (.error (fileError e))
  makeDirectory path :=
    try .ok <$> IO.FS.createDirAll path catch e => pure (.error (fileError e))
  write path content :=
    try .ok <$> IO.FS.writeFile path content catch e => pure (.error (fileError e))

end Retime.CommandLine

/-- Runs the program and returns its exit code. -/
def main (args : List String) : IO UInt32 := do
  let report ← Retime.CommandLine.run Retime.CommandLine.disk args
  IO.print report.output
  for e in report.events do
    IO.eprintln e.line
  for n in report.notices do
    IO.eprintln n.text
  return report.exit.toUInt32
