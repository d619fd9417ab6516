import TableVault.Storage.Durable
import TableVault.Storage.FileTree

namespace TableVault.Storage

/-!
# Database files

* `OpenOptions` — whether a missing file is created, and how long and how often to try
  while another handle holds the file;
* `Disk` — a tree of files, and how many handles have been given out on them;
* `Disk.openFile` — one attempt to open or create a database file and to hold it; a file
  that is held already is `locked`, by whichever path it is reached;
* `Disk.awaitFile` — opens a database file, and tries again while it is held until the
  time is up. Others have their turn between two attempts; where there are none, the
  answer is that of one attempt;
* `Disk.through` — runs an operation on the database behind a handle. A handle that
  does not hold its file sees a closed database, so a handle that has been closed
  stays closed, whoever holds the file by then;
* `Disk.release` — gives up a handle, closed or not.
-/

/-- How a database file is opened. Times are in milliseconds. -/
structure OpenOptions where
  createIfMissing : Bool := true
  /-- How long to keep trying while another handle holds the file. -/
  lockTimeout : Nat := 1000
  /-- How long to pause between two attempts. -/
  retryInterval : Nat := 50
  deriving DecidableEq, Repr

/-- A handle on a database file: the path it was opened by, the place that the path led
    to, and a number. No two opens give the same number. -/
structure Handle where
  path : String
  place : Place
  number : Nat
  deriving DecidableEq, Repr

/-- The files of a file system, and how many handles have been given out. -/
structure Disk where
  files : FileTree
  issued : Nat

namespace Disk

/-- A file system without files. -/
def empty : Disk := ⟨.empty, 0⟩

instance : Inhabited Disk := ⟨empty⟩

/-- Runs an operation on the files. -/
def onFiles {α : Type} (x : FileAction FileTree α) : FileAction Disk α := fun d =>
  match x d.files with
  | .ok a files => .ok a { d with files }
  | .error e files => .error e { d with files }

/-- The disk with a node at a place. -/
def put (d : Disk) (place : Place) (node : Node) : Disk :=
  { d with files := d.files.put place node }

/-- What is at a path. -/
def find? (d : Disk) (path : String) : Option Node :=
  d.files.find? path

/-- Whether there is anything at a path. -/
def fileExists (d : Disk) (path : String) : Bool :=
  (d.find? path).isSome

/-- Makes a directory and all directories above it. -/
def makeDirectory (path : String) : FileAction Disk Unit :=
  onFiles (FileTree.makeDirectory path)

/-- The place at which a path names a file that is there or can be created. A path that
    ends with a slash or leads to a directory names none. -/
def filePlace (d : Disk) (path : String) : Except IoFault Place := do
  let place ← d.files.resolve path
  if FileTree.asksDirectory path || d.files.hasDirectory place then throw (.system .isDirectory)
  return place

/-- Writes a file that is no database. A database that is held stays what its holder
    sees. -/
def writeFile (path : String) (content : Bytes) : FileAction Disk Unit := fun d =>
  match d.filePlace path with
  | .error fault => .error fault d
  | .ok place =>
    match d.files.node? place with
    | some (.database _ (some _)) => .ok () d
    | _ => .ok () (d.put place (.foreign content))

/-! ### Handles -/

/-- The disk after a database has been given to a new handle. -/
def hold (d : Disk) (path : String) (place : Place) (tables : Tables) : Handle × Disk :=
  (⟨path, place, d.issued⟩,
    { (d.put place (.database tables (some d.issued))) with issued := d.issued + 1 })

/-- Opens the database file at a path, which is created if there is none, in a directory
    that must exist. -/
def attach (path : String) : StorageAction Disk Handle := fun d =>
  match d.filePlace path with
  | .error fault => .error (.io fault) d
  | .ok place =>
    match d.files.node? place with
    | some (.database _ (some _)) => .error (.locked path) d
    | some (.foreign (_ :: _)) => .error (.io .notDatabase) d
    | some (.database tables none) =>
      let (h, d) := d.hold path place tables
      .ok h d
    | _ =>
      let (h, d) := d.hold path place ∅
      .ok h d

/-- Makes ready to open a file. One that is missing must be allowed to be created, and
    then the directories above it are made. -/
def prepare (options : OpenOptions) (path : String) : StorageAction Disk Unit := fun d =>
  if d.fileExists path then .ok () d
  else if !options.createIfMissing then .error (.io (.missing path)) d
  else EStateM.adaptExcept StorageError.io (onFiles (FileTree.makeAbove path)) d

/-- One attempt to open the database file at a path. One that is missing is created, with
    the directories above it, if that is allowed. -/
def openFile (options : OpenOptions) (path : String) : StorageAction Disk Handle := do
  prepare options path
  attach path

/-- The database behind a handle, closed if the handle does not hold its file. -/
def connection (d : Disk) (h : Handle) : Durable :=
  match d.files.node? h.place with
  | some (.database tables (some n)) =>
    if n = h.number then ⟨h.path, tables, true⟩ else ⟨h.path, ∅, false⟩
  | _ => ⟨h.path, ∅, false⟩

/-- The disk after the database behind a handle has changed from `before` to `after`. -/
def settle (d : Disk) (h : Handle) (before after : Durable) : Disk :=
  if before.isOpen then
    d.put h.place (.database after.tables (if after.isOpen then some h.number else none))
  else d

/-- Runs a computation on the database behind a handle. -/
def through {ε α : Type} (h : Handle) (x : EStateM ε Durable α) : EStateM ε Disk α := fun d =>
  let before := d.connection h
  match x before with
  | .ok a after => .ok a (d.settle h before after)
  | .error e after => .error e (d.settle h before after)

/-- Gives up a handle. -/
def release (d : Disk) (h : Handle) : Disk :=
  match through h (Backend.close : StorageAction Durable Unit) d with
  | .ok _ d => d
  | .error _ d => d

/-- Whether a handle holds its file. -/
def isOpen (d : Disk) (h : Handle) : Bool :=
  (d.connection h).isOpen

/-! ### Waiting for a file -/

/-- What passes from one attempt to the next: how much more time than the options ask
    for, and what the others do to the disk. -/
structure Pause where
  late : Nat
  others : Disk → Disk

/-- What the opening of a file meets with: how far ahead the clock can tell the time, how
    long the first attempt takes, and the pauses, each of which another attempt follows. -/
structure Course where
  horizon : Nat
  took : Nat
  pauses : List Pause

/-- How far the opening of a file has come. -/
inductive Opening where
  | answered (result : EStateM.Result StorageError Disk Handle)
  /-- The last attempt has found the file held, and was over after so long. -/
  | waiting (elapsed : Nat) (disk : Disk)
  /-- The clock cannot tell the time at which to give up. There has been no attempt, and
      there is no answer: the program is broken off. -/
  | brokenOff (disk : Disk)

/-- An attempt that is over so long after the opening began. It is the last one unless it
    finds the file held and there is time left. -/
def attempt (options : OpenOptions) (path : String) (elapsed : Nat) (d : Disk) : Opening :=
  match attach path d with
  | .error (.locked held) d =>
    if options.lockTimeout ≤ elapsed then .answered (.error (.locked held) d)
    else .waiting elapsed d
  | result => .answered result

/-- Another attempt after a pause, unless there has been a last one. -/
def retry (options : OpenOptions) (path : String) : Opening → Pause → Opening
  | .waiting elapsed d, pause =>
    attempt options path (elapsed + options.retryInterval + pause.late) (pause.others d)
  | opening, _ => opening

/-- Opens the database file at a path, and waits while it is held. -/
def awaitFile (options : OpenOptions) (path : String) (course : Course) (d : Disk) : Opening :=
  match prepare options path d with
  | .error e d => .answered (.error e d)
  | .ok _ d =>
    if course.horizon < options.lockTimeout then .brokenOff d
    else course.pauses.foldl (retry options path) (attempt options path course.took d)

end Disk

end TableVault.Storage
