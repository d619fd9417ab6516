namespace TableVault.Storage

/-!
# Storage errors

* `SystemFault` and `IoFault` — what the file system would not do;
* `StorageError` — why a backend operation fails, and its text;
* `EngineFault` and `StorageError.ofEngine` — what the storage engine reports, and how
  it is passed on.
-/

/-- What the operating system reports about a path. -/
inductive SystemFault where
  | noSuchFile
  | fileExists
  | notDirectory
  | isDirectory
  | nameTooLong
  deriving DecidableEq, Repr

namespace SystemFault

/-- The number of a fault. -/
def number : SystemFault → Nat
  | noSuchFile => 2
  | fileExists => 17
  | notDirectory => 20
  | isDirectory => 21
  | nameTooLong => 36

/-- The text of a fault. -/
def message : SystemFault → String
  | noSuchFile => "No such file or directory"
  | fileExists => "File exists"
  | notDirectory => "Not a directory"
  | isDirectory => "Is a directory"
  | nameTooLong => "File name too long"

end SystemFault

/-- What the file system would not do. -/
inductive IoFault where
  /-- The database file does not exist and must not be created. -/
  | missing (path : String)
  /-- The operating system refused. -/
  | system (fault : SystemFault)
  /-- A path contains the null character. -/
  | nullInPath
  /-- A file is no database. -/
  | notDatabase
  /-- Anything else. -/
  | other (message : String)
  deriving DecidableEq, Repr

/-- The text of a file system fault. -/
def IoFault.message : IoFault → String
  | .missing path => "database file does not exist: " ++ path
  | .system fault => fault.message ++ " (os error " ++ toString fault.number ++ ")"
  | .nullInPath => "file name contained an unexpected NUL byte"
  | .notDatabase => "invalid data"
  | .other message => message

/-- Why a backend operation fails. -/
inductive StorageError where
  /-- The file system failed. -/
  | io (fault : IoFault)
  /-- Another holder has the file open. -/
  | locked (path : String)
  /-- The engine failed. -/
  | engine (message : String)
  /-- The file is damaged. -/
  | corrupted (message : String)
  /-- The backend has been closed. -/
  | closed
  deriving DecidableEq, Repr

/-- What the storage engine reports. -/
inductive EngineFault where
  | corrupted (message : String)
  | io (message : String)
  | other (message : String)
  deriving DecidableEq, Repr

namespace StorageError

/-- A damaged file and a failing file system are causes of their own; every other report
    of the engine is passed on as it is. -/
def ofEngine : EngineFault → StorageError
  | .corrupted message => .corrupted message
  | .io message => .io (.other message)
  | .other message => .engine message

/-- The text of an error. -/
def message : StorageError → String
  | .io fault => "I/O error: " ++ fault.message
  | .locked path => "database is currently in use by an existing instance: " ++ path
  | .engine message => "engine error: " ++ message
  | .corrupted message => "storage corrupted: " ++ message
  | .closed => "storage is closed"

/-- Whether the file is held by another. -/
def isLocked : StorageError → Bool
  | .locked _ => true
  | _ => false

end StorageError

end TableVault.Storage
