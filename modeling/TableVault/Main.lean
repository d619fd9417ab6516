import TableVault.CommandLine.Run
import TableVault.Storage.Image

namespace TableVault.Main

/-!
# The program

* `main` — reads the database file that the command line names, runs the command on it,
  writes the file back if it has changed, and prints the outcome.
-/

open Storage

/-- The database file that a command line names. -/
def fileOf (arguments : List String) : Option String :=
  match CommandLine.Request.ofArguments arguments with
  | .run i => i.file
  | _ => none

/-- The bytes of a database file on a disk, if it has become one. -/
def imageAt (d : Disk) (path : String) : Option Bytes :=
  match d.find? path with
  | some (.database tables _) => some (Image.encode tables)
  | _ => none

/-- The node of a file with a given content. -/
def nodeOf (content : Bytes) : Node :=
  match Image.decode? content with
  | some tables => .database tables none
  | none => .foreign content

/-- A disk with a node at a path, in directories that lead to it. -/
def diskWith (path : String) (node : Node) : Disk :=
  match Disk.onFiles (FileTree.makeAbove path) Disk.empty with
  | .error _ d => d
  | .ok _ d =>
    match d.files.resolve path with
    | .ok place => d.put place node
    | .error _ => d

/-- The disk with what there is at a path. -/
def load (path : String) : IO Disk := do
  try
    let content ← IO.FS.readBinFile path
    return diskWith path (nodeOf content.toList)
  catch
    | .noFileOrDirectory .. => return Disk.empty
    | _ => return diskWith path .directory

/-- Writes the database file at a path, if it has changed. -/
def save (path : String) (before after : Disk) : IO Unit := do
  match imageAt after path with
  | some image =>
    if imageAt before path != some image then IO.FS.writeBinFile path ⟨image.toArray⟩
  | none => return ()

end TableVault.Main

open TableVault in
/-- Runs the command line. -/
def main (arguments : List String) : IO UInt32 := do
  let seed ← IO.getRandomBytes 32
  let file := Main.fileOf arguments
  let before ← match file with
    | some path => Main.load path
    | none => pure Storage.Disk.empty
  let (outcome, after) := CommandLine.run arguments (Fresh.ofSeed seed.toList) before
  if let some path := file then Main.save path before after
  IO.print outcome.output
  IO.eprint outcome.errors
  return UInt32.ofNat outcome.exit
