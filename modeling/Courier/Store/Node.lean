import Courier.Store.Fault
import Courier.Text.Utf8

/-!
# What stands at a path

A path leads to nothing, to a file or to a directory. A file is read as a text, overwritten or
removed; a directory is none of that.
-/

namespace Courier.Store

open Courier.Text

/-- What stands at a path. -/
inductive Node where
  /-- Nothing. -/
  | absent
  /-- A file with its octets. -/
  | file (content : List UInt8)
  /-- A directory. -/
  | directory
  deriving DecidableEq, Inhabited

namespace Node

/-- The text of a file. -/
def readText : Node → Except Fault String
  | .absent => .error .notFound
  | .directory => .error .isADirectory
  | .file content =>
    match ofOctets? content with
    | some s => .ok s
    | none => .error .invalidData

/-- A file with a text in place of what was there. -/
def writeText (text : String) : Node → Except Fault Node
  | .directory => .error .isADirectory
  | .absent => .ok (.file (octets text))
  | .file _ => .ok (.file (octets text))

/-- What is left once a file is removed. -/
def remove : Node → Except Fault Node
  | .absent => .error .notFound
  | .directory => .error .isADirectory
  | .file _ => .ok .absent

end Node

end Courier.Store
