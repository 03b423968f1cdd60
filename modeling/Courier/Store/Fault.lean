/-!
# Why a file cannot be used

The kinds of failure that reading, writing and removing a file can end with.
-/

namespace Courier.Store

/-- Why a file cannot be used. -/
inductive Fault where
  /-- There is nothing at the path. -/
  | notFound
  /-- A directory stands where a file is wanted. -/
  | isADirectory
  /-- A file stands where a directory is wanted. -/
  | notADirectory
  /-- A file stands where a directory is to be made. -/
  | alreadyExists
  /-- The content is not what is wanted. -/
  | invalidData
  /-- The content ends too early. -/
  | unexpectedEof
  /-- The path holds a character that no path can hold. -/
  | invalidInput
  /-- A part of the path is too long. -/
  | invalidFilename
  deriving DecidableEq, Inhabited

/-- What is said of a failure where it becomes part of another text. -/
def Fault.message : Fault → String
  | .notFound => "nothing found"
  | .isADirectory => "is a directory"
  | .notADirectory => "not a directory"
  | .alreadyExists => "already exists"
  | .invalidData => "invalid data"
  | .unexpectedEof => "unexpected end of data"
  | .invalidInput => "invalid path"
  | .invalidFilename => "name too long"

end Courier.Store
