import TableVault.Padlock
import TableVault.Proofs.Cbor.LockRecord
import TableVault.Proofs.Crypto.Sealing

namespace TableVault.Padlock

open Record

/-!
# System records are read back

* `readRecord_marker` — the marker of a reset is read as true;
* `lockStateOf` and `lockRecordOf` — the lock record that binds a padlock, and as it
  stands in the system table;
* `readRecord_lockRecordOf` and `openLock_lockStateOf` — it is read back, and opens to the
  key that was sealed in it;
* `Rejects` and `openLock_of_rejects` — it does not open with a padlock under which the sealed
  key fails authentication.
-/

/-- The marker of a reset is read as true. -/
theorem readRecord_marker :
    readRecord .bool resetKey (some (frame .plain (Cbor.toCbor .bool true))) = .ok (some true) := by
  rfl

/-- A lock record is read back. -/
theorem readRecord_lock (s : Cbor.LockState) (hsalt : s.salt.length < 2 ^ 64)
    (hsealed : s.sealed.length < 2 ^ 64) :
    readRecord .lockState lockKey (some (frame .plain (Cbor.toCbor .lockState s))) =
      .ok (some s) := by
  have hread : Cbor.fromCbor? .lockState (Cbor.toCbor .lockState s) = .ok s :=
    Cbor.fromCbor?_of_reads (Cbor.reads_lockState s hsalt hsealed)
  simp only [readRecord, split_frame, decodeAs, hread]
  rfl

/-- The lock record that binds a padlock: a fresh master key sealed under it. -/
def lockStateOf (fresh : Fresh) (padlock : Bytes) : Cbor.LockState where
  version := lockVersion
  salt := fresh.salt
  sealed := (Crypto.Sealer.derive padlock fresh.salt).sealKey fresh.nonce fresh.master

/-- The lock record of a padlock is opened with any padlock by unsealing its key. -/
theorem openLock_lockStateOf_eq (fresh : Fresh) (padlock other : Bytes) :
    openLock (lockStateOf fresh padlock) other =
      (Crypto.Sealer.derive other fresh.salt).unsealKey (lockStateOf fresh padlock).sealed := by
  rw [openLock, if_neg (by simp [lockStateOf]), if_neg (by simp [lockStateOf, fresh.salt_length])]
  rfl

/-- The lock record of a padlock opens to the key that was sealed in it. -/
theorem openLock_lockStateOf (fresh : Fresh) (padlock : Bytes) :
    openLock (lockStateOf fresh padlock) padlock = .ok fresh.master := by
  rw [openLock_lockStateOf_eq]
  exact Crypto.Sealer.unsealKey_sealKey _ fresh.nonce_length fresh.master

/-- What one padlock has sealed fails authentication under another. -/
def Rejects (fresh : Fresh) (padlock other : Bytes) : Prop :=
  Crypto.Gcm.decrypt? (Crypto.Sealer.derive other fresh.salt).image fresh.nonce
    (Crypto.Gcm.encrypt (Crypto.Sealer.derive padlock fresh.salt).image fresh.nonce
      fresh.master.bytes) = none

instance (fresh : Fresh) (padlock other : Bytes) : Decidable (Rejects fresh padlock other) :=
  inferInstanceAs (Decidable (_ = none))

/-- The lock record of a padlock is not opened with another one that it fails authentication
    under. -/
theorem openLock_of_rejects {fresh : Fresh} {padlock other : Bytes}
    (h : Rejects fresh padlock other) :
    openLock (lockStateOf fresh padlock) other = .error .badPadlock := by
  rw [openLock_lockStateOf_eq, lockStateOf,
    Crypto.Sealer.unsealKey_sealKey_eq _ _ fresh.nonce_length, h, Option.elim_none]

/-- The record of a lock, as it stands in the system table. -/
def lockRecordOf (fresh : Fresh) (padlock : Bytes) : Bytes :=
  frame .plain (Cbor.toCbor .lockState (lockStateOf fresh padlock))

/-- The record of a lock is read back. -/
theorem readRecord_lockRecordOf (fresh : Fresh) (padlock : Bytes) :
    readRecord .lockState lockKey (some (lockRecordOf fresh padlock)) =
      .ok (some (lockStateOf fresh padlock)) := by
  refine readRecord_lock _ ?_ ?_
  · rw [lockStateOf, fresh.salt_length]
    decide
  · rw [lockStateOf, Crypto.Sealer.length_sealKey, fresh.nonce_length]
    decide

end TableVault.Padlock
