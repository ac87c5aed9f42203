/-!
Why a file cannot be read or written.
-/

namespace ResourceLint

inductive FileError where
  | notFound
  /-- A step of the path leads through a file. -/
  | notDirectory
  | isDirectory
  /-- The path or one of its names is longer than any that can exist. -/
  | nameTooLong
  /-- The path holds the character with the code 0, which ends names. -/
  | nulInName
  /-- The content is not UTF-8. -/
  | notText
  deriving DecidableEq, Repr

def FileError.message : FileError → String
  | .notFound => "No such file or directory (os error 2)"
  | .notDirectory => "Not a directory (os error 20)"
  | .isDirectory => "Is a directory (os error 21)"
  | .nameTooLong => "File name too long (os error 36)"
  | .nulInName => "file name contained an unexpected NUL byte"
  | .notText => "stream did not contain valid UTF-8"

end ResourceLint
