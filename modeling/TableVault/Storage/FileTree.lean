import TableVault.Text.Pieces
import TableVault.Storage.Error
import TableVault.Storage.Tables

namespace TableVault.Storage

/-!
# Trees of files

* `Node` and `FileTree` — directories, database files, and files that are no databases,
  by their place: the names on the way down from the top;
* `FileTree.walk` — the place that a path leads to. A path is read piece by piece, and
  every piece but the last must lead to a directory that is there, so two dots undo a
  name only after that name has been found;
* `FileTree.find?` — what is at a path; one that ends with a slash leads to a directory
  or nowhere;
* `FileTree.makeAbove` and `FileTree.makeDirectory` — make the directories that lead to
  a path, and the one at the path itself.
-/

/-- A computation on files that the file system may refuse. What it has done before the
    refusal stays. -/
abbrev FileAction (σ : Type) := EStateM IoFault σ

/-- What is at a place. -/
inductive Node where
  | directory
  /-- A file that is no database. An empty one becomes a database when opened. -/
  | foreign (content : Bytes)
  /-- A database and the handle that holds it. -/
  | database (tables : Tables) (holder : Option Nat)

/-- Whether a node can hold other nodes. -/
def Node.isDirectory : Node → Bool
  | directory => true
  | _ => false

/-- The names on the way down from the top of a file system. -/
abbrev Place := List String

/-- The nodes of a file system, by the names on the way to them with slashes between. -/
structure FileTree where
  nodes : Std.ExtTreeMap String Node

namespace FileTree

/-- A file system without files. -/
def empty : FileTree := ⟨∅⟩

/-- The names on the way to a place with slashes between. -/
def key (place : Place) : String :=
  String.intercalate "/" place

/-- The node at a place; the top is a directory. -/
def node? (t : FileTree) (place : Place) : Option Node :=
  if place = [] then some .directory else t.nodes[key place]?

/-- Whether there is a directory at a place. -/
def hasDirectory (t : FileTree) (place : Place) : Bool :=
  (t.node? place).any Node.isDirectory

/-- The tree with a node at a place. -/
def put (t : FileTree) (place : Place) (node : Node) : FileTree :=
  ⟨t.nodes.insert (key place) node⟩

/-! ### Paths -/

/-- The longest name of a file, in bytes. -/
def nameLimit : Nat := 255

/-- The longest path, in bytes. -/
def pathLimit : Nat := 4095

/-- The pieces of a path between its slashes. -/
def pathPieces (path : String) : List String :=
  (pieces '/' path.toList).map String.ofList

/-- Whether a path ends with a slash, which asks for a directory. -/
def asksDirectory (path : String) : Bool :=
  path.toList.getLast? == some '/'

/-- Whether a piece leads no further. -/
def isIdle (piece : String) : Bool :=
  piece == "" || piece == "."

/-- The pieces of a path up to the last that leads further. -/
def dropIdle (path : List String) : List String :=
  (path.reverse.dropWhile isIdle).reverse

/-- The pieces of the path of the directory above. Two dots are a piece like any other
    here, whatever they lead to. -/
def above (path : String) : List String :=
  dropIdle (dropIdle (pathPieces path)).dropLast

/-- No path contains the null character or is too long as it is written. -/
def checkPath (path : List String) : Except IoFault Unit :=
  let written := key path
  if written.toList.contains '\x00' then .error .nullInPath
  else if pathLimit < written.utf8ByteSize then .error (.system .nameTooLong)
  else .ok ()

/-- The place one piece further. There need not be anything at it. -/
def enter (t : FileTree) (place : Place) (piece : String) : Except IoFault Place :=
  match t.node? place with
  | none => .error (.system .noSuchFile)
  | some node =>
    if !node.isDirectory then .error (.system .notDirectory)
    else if piece = "." then .ok place
    else if piece = ".." then .ok place.dropLast
    else if nameLimit < piece.utf8ByteSize then .error (.system .nameTooLong)
    else .ok (place ++ [piece])

/-- The place that pieces lead to, from a place on. -/
def walkFrom (t : FileTree) (place : Place) : List String → Except IoFault Place
  | [] => .ok place
  | piece :: rest => do t.walkFrom (← t.enter place piece) rest

/-- The place that a path of some pieces leads to. -/
def walk (t : FileTree) (path : List String) : Except IoFault Place := do
  checkPath path
  t.walkFrom [] (path.filter (· ≠ ""))

/-- The place that a path leads to. -/
def resolve (t : FileTree) (path : String) : Except IoFault Place :=
  t.walk (pathPieces path)

/-- What is at a path. -/
def find? (t : FileTree) (path : String) : Option Node :=
  match t.resolve path with
  | .error _ => none
  | .ok place => (t.node? place).filter fun node => !asksDirectory path || node.isDirectory

/-! ### Directories -/

/-- Makes a directory at a place, unless there is one. -/
def ensure (place : Place) : FileAction FileTree Unit := fun t =>
  match t.node? place with
  | none => .ok () (t.put place .directory)
  | some node => if node.isDirectory then .ok () t else .error (.system .fileExists) t

/-- Makes the directories on the way that pieces lead, from a place on. -/
def ensureFrom (place : Place) : List String → FileAction FileTree Unit
  | [] => return ()
  | piece :: rest => fun t =>
    match t.enter place piece with
    | .error fault => .error fault t
    | .ok next => (do ensure next; ensureFrom next rest) t

/-- Makes the directories that lead to a path. What has been made stays, even if
    something further on is in the way. -/
def makeAbove (path : String) : FileAction FileTree Unit := fun t =>
  match checkPath (above path) with
  | .error fault => .error fault t
  | .ok _ => ensureFrom [] ((above path).filter (· ≠ "")) t

/-- Makes the directory at a path, in a directory that is there. -/
def makeLast (path : String) : FileAction FileTree Unit := fun t =>
  match t.resolve path with
  | .error fault => .error fault t
  | .ok place => ensure place t

/-- Makes a directory and the directories above it. -/
def makeDirectory (path : String) : FileAction FileTree Unit := fun t =>
  match checkPath (pathPieces path) with
  | .error fault => .error fault t
  | .ok _ => (do makeAbove path; makeLast path) t

end FileTree

end TableVault.Storage
