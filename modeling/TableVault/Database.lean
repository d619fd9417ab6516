import TableVault.Store
import TableVault.Storage.Disk

namespace TableVault

/-!
# Vaults in database files

* `Config` — how a vault is opened; the default creates a missing file and waits one
  second for a file that is held;
* `Database.openStore` — opens a database file and unlocks it; a file that cannot be
  unlocked is let go of again. Nobody else has a turn meanwhile, so the file is opened in
  one attempt;
* `Database.cryptReset` — the crypt reset of a database file, which must exist and is
  let go of whatever the outcome.
-/

/-- How a vault is opened. Times are in milliseconds. -/
structure Config where
  createIfMissing : Bool := true
  lockTimeout : Nat := 1000
  lockRetryInterval : Nat := 50
  deriving DecidableEq, Repr

namespace Config

/-- The configuration with another choice of whether a missing file is created. -/
def withCreateIfMissing (c : Config) (b : Bool) : Config := { c with createIfMissing := b }

/-- The configuration with another time to wait for a file that is held. -/
def withLockTimeout (c : Config) (time : Nat) : Config := { c with lockTimeout := time }

/-- The configuration with another time between two attempts. -/
def withLockRetryInterval (c : Config) (time : Nat) : Config :=
  { c with lockRetryInterval := time }

/-- The options that a database file is opened with. -/
def openOptions (c : Config) : Storage.OpenOptions :=
  { createIfMissing := c.createIfMissing, lockTimeout := c.lockTimeout,
    retryInterval := c.lockRetryInterval }

end Config

namespace Database

open Storage

/-- Opens a database file and unlocks it with a padlock. -/
def openStore (config : Config) (path : String) (fresh : Fresh) (padlock : Bytes) :
    Action Disk (Handle × Store) := do
  let h ← Action.ofStorage (Disk.openFile config.openOptions path)
  let s ← Disk.through h (Store.withBackend fresh padlock)
  return (h, s)

/-- The crypt reset of a database file: the number of records removed. -/
def cryptReset (config : Config) (path : String) : Action Disk Nat := do
  let h ← Action.ofStorage
    (Disk.openFile { config.openOptions with createIfMissing := false } path)
  fun d =>
    match Disk.through h Padlock.reset d with
    | .ok n d => .ok n (d.release h)
    | .error e d => .error e (d.release h)

end Database

end TableVault
