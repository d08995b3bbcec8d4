/-! # File errors

Why an operation on a file or a directory fails.
-/

namespace Retime

inductive FileError where
  | notFound
  | alreadyThere
  /-- A directory is needed where something else is. -/
  | notDirectory
  /-- A file is needed where a directory is. -/
  | isDirectory
  | nameTooLong
  /-- The content of the file is no text. -/
  | notText
  | other (reason : String)
deriving DecidableEq, Repr

def FileError.message : FileError → String
  | notFound => "No such file or directory (os error 2)"
  | alreadyThere => "File exists (os error 17)"
  | notDirectory => "Not a directory (os error 20)"
  | isDirectory => "Is a directory (os error 21)"
  | nameTooLong => "File name too long (os error 36)"
  | notText => "stream did not contain valid UTF-8"
  | other reason => reason

end Retime
