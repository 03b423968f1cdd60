import Courier.Store.Node
import Courier.Text.Split

/-!
# Directories and paths

A `Tree` is a file or a directory of trees. A path is read from its left, part by part: an empty
part and a single dot stay where they are, two dots lead to the directory around, and any other part
is looked up. All of them need a directory to start from, so a file cannot be passed, not even by a
slash at the end of a path. A slash at its beginning leads to the outermost directory first.
-/

namespace Courier.Store

/-- A file or a directory. -/
inductive Tree where
  /-- A file with its octets. -/
  | file (content : List UInt8)
  /-- A directory with its entries by name. -/
  | directory (entries : List (String × Tree))
  deriving Inhabited

namespace Tree

/-- A directory without entries. -/
def empty : Tree :=
  .directory []

/-- What a directory holds under a name. -/
def entry? : Tree → String → Option Tree
  | .file _, _ => none
  | .directory entries, name => entries.lookup name

/-- A directory with something under a name, in place of what was there. -/
def withEntry (t : Tree) (name : String) (inner : Tree) : Tree :=
  match t with
  | .file content => .file content
  | .directory entries =>
    .directory ((name, inner) :: entries.filter fun e => e.1 != name)

/-- A tree with something at the end of some names; directories on the way are made. -/
def graft (inner : Tree) : List String → Tree → Tree
  | [], _ => inner
  | name :: names, t => t.withEntry name (graft inner names ((t.entry? name).getD empty))

/-- What stands at the root of a tree. -/
def node : Tree → Node
  | .file content => .file content
  | .directory _ => .directory

end Tree

/-! ## Paths -/

/-- The longest part of a path, in octets. -/
def longestPart : Nat := 255

/-- The longest path, in octets. -/
def longestPath : Nat := 4095

/-- A place in a tree: the tree at it, and the directories around it, the innermost first. -/
structure Place where
  /-- What stands here. -/
  here : Tree
  /-- What stands around. -/
  around : List Tree

/-- The place that one part of a path leads to. -/
def Place.step (p : Place) (part : String) : Except Fault Place :=
  match p.here with
  | .file _ => .error .notADirectory
  | .directory _ =>
    if part = "" ∨ part = "." then .ok p
    else if part = ".." then
      match p.around with
      | outer :: rest => .ok ⟨outer, rest⟩
      | [] => .ok p
    else if longestPart < (Text.octets part).length then .error .invalidFilename
    else
      match p.here.entry? part with
      | some inner => .ok ⟨inner, p.here :: p.around⟩
      | none => .error .notFound

/-- The root of a tree. -/
def Place.root (t : Tree) : Place :=
  ⟨t, []⟩

/-- The place that some parts of a path lead to. -/
def Place.walk (p : Place) (parts : List String) : Except Fault Place :=
  parts.foldlM Place.step p

/-- The outermost directory around a place, or the place itself if there is none around it. -/
def Place.outermost (p : Place) : Place :=
  .root (p.around.getLast?.getD p.here)

/-- What stands at a path. A path that starts with a slash is read from the outermost directory,
and any other path from here. -/
def Place.find (p : Place) (path : String) : Except Fault Node := do
  if path.toList.contains '\x00' then throw .invalidInput
  if longestPath < (Text.octets path).length then throw .invalidFilename
  let start := if path.toList.head? = some '/' then p.outermost else p
  return (← start.walk ((Text.parts '/' path.toList).map String.ofList)).here.node

/-- The text of the file at a path. -/
def Place.readText (p : Place) (path : String) : Except Fault String := do
  (← p.find path).readText

/-! ## Names in a row

A place can also be given by the names that lead to it from the root of a tree. That is how files
are written, in directories that are made on the way. -/

namespace Tree

/-- What stands at the end of some names. -/
def nodeAt (t : Tree) (names : List String) : Except Fault Node :=
  match (Place.root t).walk names with
  | .ok p => .ok p.here.node
  | .error .notFound => .ok .absent
  | .error f => .error f

/-- A tree with a node at the end of some names; a directory is one without entries. -/
def withNode (t : Tree) (names : List String) : Node → Tree
  | .absent => t
  | .file content => graft (.file content) names t
  | .directory => graft empty names t

/-- A tree in which some names lead through directories. Those that are missing are made. -/
def makeDirectories : List String → Tree → Except Fault Tree
  | [], .directory entries => .ok (.directory entries)
  | [], .file _ => .error .alreadyExists
  | _ :: _, .file _ => .error .notADirectory
  | name :: names, .directory entries =>
    if longestPart < (Text.octets name).length then .error .invalidFilename
    else do
      let inner ← makeDirectories names ((entries.lookup name).getD empty)
      return (Tree.directory entries).withEntry name inner

end Tree

end Courier.Store
