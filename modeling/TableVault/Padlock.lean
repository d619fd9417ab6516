import TableVault.Action
import TableVault.Crypto.Sealer
import TableVault.Record.Encoder
import TableVault.Record.Flag
import TableVault.Storage.Tables

namespace TableVault

/-!
# The padlock of a vault

The first padlock that a vault is opened with is bound to it: a fresh master key is
sealed under that padlock, and the lock record that results is kept in the system
table. A crypt reset removes every encrypted record and the lock record, so that the
next padlock is bound anew.

* `Fresh` — the random choices that binding a padlock needs;
* `Padlock.unlock` — the master key of a vault: of its lock record, or a fresh one;
* `Padlock.reset` — the crypt reset. It first leaves a marker, which is gone only when
  nothing is left to remove, so a reset that was cut short is resumed by `unlock`.
-/

/-- The bytes in the salt of a lock record. -/
def saltSize : Nat := 16

/-- The random choices that binding a padlock needs. -/
structure Fresh where
  master : Crypto.MasterKey
  salt : Bytes
  nonce : Bytes
  salt_length : salt.length = saltSize
  nonce_length : nonce.length = Crypto.nonceSize

namespace Fresh

/-- Choices drawn from a seed, each from a digest of its own. -/
def ofSeed (seed : Bytes) : Fresh where
  master := ⟨Crypto.Sha256.hash (0 :: seed), by simp [Crypto.keySize]⟩
  salt := (Crypto.Sha256.hash (1 :: seed)).take saltSize
  nonce := (Crypto.Sha256.hash (2 :: seed)).take Crypto.nonceSize
  salt_length := by simp [saltSize]
  nonce_length := by simp [Crypto.nonceSize]

end Fresh

namespace Padlock

open Storage Cbor Record

/-- The key of the reset marker in the system table. -/
def resetKey : String := "reset"

/-- The key of the lock record in the system table. -/
def lockKey : String := "lock"

/-- The only version of lock records. -/
def lockVersion : UInt32 := 1

variable {σ : Type} [Backend σ]

/-! ### System records -/

/-- The content of a system record, which must be plain; none if there is no record or
    an empty one. -/
def readRecord (s : Shape) (key : String) : Option Bytes → Except VaultError (Option s.Carrier)
  | none => .ok none
  | some record =>
    match split record with
    | .error e => .error (.codec e)
    | .ok none => .ok none
    | .ok (some (.plain, payload)) => ((decodeAs s payload).map some).mapError .codec
    | .ok (some (.encrypted, _)) => .error (.invalidLockState (.encryptedRecord key))

/-- Reads a system record. -/
def readSystem (s : Shape) (key : String) : Action σ (Option s.Carrier) := do
  Action.ofExcept (readRecord s key (← Action.ofStorage (Backend.get systemTable key)))

/-- Writes a system record. -/
def writeSystem (s : Shape) (key : String) (a : s.Carrier) : Action σ Unit :=
  Action.ofStorage (Backend.set systemTable key (frame .plain (toCbor s a)))

/-- Whether a reset has been started and not finished. -/
def resetPending : Action σ Bool := do
  return (← readSystem .bool resetKey).getD false

/-- Leaves the marker of a reset that has been started. -/
def markReset : Action σ Unit :=
  writeSystem .bool resetKey true

/-! ### Removing what is encrypted -/

/-- The keys among some keys of a table whose records are encrypted. -/
def encryptedKeys (table : String) : List String → Action σ (List String)
  | [] => return []
  | key :: rest => do
    let record ← Action.ofStorage (Backend.get table key)
    let more ← encryptedKeys table rest
    return if record.any isEncrypted then key :: more else more

/-- Removes the encrypted records of a table, and counts them. -/
def purgeTable (table : String) : Action σ Nat := do
  let doomed ← encryptedKeys table (← Action.ofStorage (Backend.keys table))
  if doomed.isEmpty then return 0
  else Action.ofStorage (Backend.unsetMany table doomed)

/-- Removes the encrypted records of some tables, and counts them. -/
def purgeTables : List String → Action σ Nat
  | [] => return 0
  | table :: rest => do
    let n ← purgeTable table
    return n + (← purgeTables rest)

/-- Removes every encrypted record, and counts them; then removes the system table. -/
def purge : Action σ Nat := do
  let n ← purgeTables (← Action.ofStorage Backend.tables)
  Action.ofStorage (Backend.dropTable systemTable)
  return n

/-- The crypt reset: leaves the marker, and removes what is encrypted. -/
def reset : Action σ Nat := do
  markReset
  purge

/-! ### Unlocking -/

/-- Binds a padlock: seals a fresh master key under it and writes the lock record. -/
def establish (fresh : Fresh) (padlock : Bytes) : Action σ Crypto.MasterKey := do
  let sealed := (Crypto.Sealer.derive padlock fresh.salt).sealKey fresh.nonce fresh.master
  writeSystem .lockState lockKey { version := lockVersion, salt := fresh.salt, sealed }
  return fresh.master

/-- The master key of a lock record. -/
def openLock (state : LockState) (padlock : Bytes) : Except VaultError Crypto.MasterKey :=
  if state.version ≠ lockVersion then
    .error (.invalidLockState (.unsupportedVersion state.version))
  else if state.salt.length ≠ saltSize then .error (.invalidLockState .saltLength)
  else (Crypto.Sealer.derive padlock state.salt).unsealKey state.sealed

/-- The master key of a vault. A reset that was cut short is finished first; then the
    lock record is opened with the padlock, or, if there is none, the padlock bound. -/
def unlock (fresh : Fresh) (padlock : Bytes) : Action σ Crypto.MasterKey := do
  if ← resetPending then
    let _ ← purge
  match ← readSystem .lockState lockKey with
  | some state => Action.ofExcept (openLock state padlock)
  | none => establish fresh padlock

end Padlock

end TableVault
