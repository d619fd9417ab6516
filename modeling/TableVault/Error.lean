import TableVault.Storage.Error
import TableVault.Record.Flag
import TableVault.Text.Quoted

namespace TableVault

/-!
# Errors of the vault

* `VaultError` — why an operation on a vault fails;
* `VaultError.message` — its text for a reader;
* `VaultError.ofStorage` — a storage error as an error of the vault: a file that is
  held by another is reported as such, every other cause is passed on.
-/

/-- What is wrong with a name. -/
inductive NameFault where
  | empty
  | containsSeparator
  deriving DecidableEq, Repr

/-- The text of a name fault. -/
def NameFault.message : NameFault → String
  | .empty => "name is empty"
  | .containsSeparator => "contains the namespace separator"

/-- What is wrong with the system records of a vault. -/
inductive LockFault where
  /-- A system record is flagged as encrypted. -/
  | encryptedRecord (key : String)
  /-- The lock record has a version other than the one that is known. -/
  | unsupportedVersion (version : UInt32)
  /-- The salt has the wrong length. -/
  | saltLength
  /-- The sealed key is shorter than a nonce and a tag. -/
  | sealedTooShort
  /-- Anything else. -/
  | other (message : String)
  deriving DecidableEq, Repr

/-- The text of a lock fault. -/
def LockFault.message : LockFault → String
  | .encryptedRecord key => "system record " ++ Quoted.quote key ++ " is flagged as encrypted"
  | .unsupportedVersion version => "unsupported lock state version " ++ toString version.toNat
  | .saltLength => "salt has the wrong length"
  | .sealedTooShort => "sealed key too short"
  | .other message => message

/-- Why an operation on a vault fails. -/
inductive VaultError where
  | storage (cause : Storage.StorageError)
  | codec (cause : CodecError)
  | locked (path : String)
  | badPadlock
  | invalidName (name : String) (fault : NameFault)
  | invalidLockState (fault : LockFault)
  | encryptionFailed (message : String)
  | decryptionFailed (message : String)
  | invalidKeySize (expected actual : Nat)
  | keyDerivationFailed (message : String)
  deriving DecidableEq, Repr

namespace VaultError

/-- A storage error as an error of the vault. -/
def ofStorage : Storage.StorageError → VaultError
  | .locked path => .locked path
  | cause => .storage cause

/-- The text of an error. -/
def message : VaultError → String
  | .storage cause => "storage error: " ++ cause.message
  | .codec cause => "codec error: " ++ cause.message
  | .locked path =>
    "database locked: " ++ path ++ " is in use by an existing instance, close it and try again"
  | .badPadlock => "bad padlock: the supplied secret does not unlock this database"
  | .invalidName name fault => "invalid name " ++ Quoted.quote name ++ ": " ++ fault.message
  | .invalidLockState fault => "invalid lock state: " ++ fault.message
  | .encryptionFailed message => "encryption failed: " ++ message
  | .decryptionFailed message => "decryption failed: " ++ message
  | .invalidKeySize expected actual =>
    "invalid key size: expected " ++ toString expected ++ " bytes, got " ++ toString actual
  | .keyDerivationFailed message => "key derivation failed: " ++ message

/-- Whether the file is held by another. -/
def isLocked : VaultError → Bool
  | .locked _ => true
  | _ => false

/-- Whether the padlock was the wrong one. -/
def isBadPadlock : VaultError → Bool
  | .badPadlock => true
  | _ => false

end VaultError

end TableVault
