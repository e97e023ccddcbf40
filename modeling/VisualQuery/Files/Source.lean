/-!
Where texts come from: reading a file by its path, in any monad, and the ways in which that can
fail.
-/

namespace VisualQuery

inductive FileError where
  | notFound
  | isDirectory
  /-- A file stands where the path wants a directory. -/
  | notDirectory
  | nameTooLong
  /-- The path holds a character that no file name can hold. -/
  | impossibleName
  | notUtf8
  /-- What the system says in any other case. -/
  | other (description : String)
deriving DecidableEq, Repr

def FileError.message : FileError → String
  | .notFound => "No such file or directory (os error 2)"
  | .isDirectory => "Is a directory (os error 21)"
  | .notDirectory => "Not a directory (os error 20)"
  | .nameTooLong => "File name too long (os error 36)"
  | .impossibleName => "file name contained an unexpected NUL byte"
  | .notUtf8 => "stream did not contain valid UTF-8"
  | .other description => description

/-- Whether the path of a failed reading leads to no file at all. -/
def FileError.isAbsence : FileError → Bool
  | .notFound | .isDirectory | .notDirectory | .nameTooLong | .impossibleName => true
  | .notUtf8 | .other _ => false

abbrev FileSource (m : Type → Type) := String → m (Except FileError String)

end VisualQuery
