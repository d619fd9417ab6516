import TableVault.Crypto.Aes
import TableVault.Crypto.Gcm
import TableVault.Crypto.Sha256
import TableVault.Crypto.MasterKey
import TableVault.Text.Utf8

namespace TableVault.Crypto

/-!
# Sealing the master key under a padlock

* `Sealer` — a key derived from a padlock and a salt;
* `Sealer.sealKey` — a master key sealed under a nonce: the nonce, the ciphertext and
  its tag;
* `Sealer.unsealKey` — the master key of a sealed one. The length is checked first, then
  the tag, then the length of what was sealed.
-/

/-- The bytes in a nonce. -/
def nonceSize : Nat := 12

/-- The bytes in a tag. -/
def tagSize : Nat := Gcm.tagSize

/-- The purpose that sealing keys are derived for. -/
def sealingPurpose : Bytes := Utf8.encode "kvnest-padlock-v1"

/-- A key that master keys are sealed under. -/
structure Sealer where
  key : Bytes

namespace Sealer

/-- The sealer of a padlock and a salt. -/
def derive (padlock salt : Bytes) : Sealer :=
  ⟨Hkdf.derive salt padlock sealingPurpose⟩

/-- The image of a block under the sealing key. -/
def image (s : Sealer) : Bytes → Bytes :=
  Aes.encryptBlock (Aes.expandKey s.key)

/-- A master key sealed under a nonce. -/
def sealKey (s : Sealer) (nonce : Bytes) (master : MasterKey) : Bytes :=
  nonce ++ Gcm.encrypt s.image nonce master.bytes

/-- The master key that was sealed. -/
def unsealKey (s : Sealer) (sealed : Bytes) : Except VaultError MasterKey :=
  if sealed.length < nonceSize + tagSize then .error (.invalidLockState .sealedTooShort)
  else
    match Gcm.decrypt? s.image (sealed.take nonceSize) (sealed.drop nonceSize) with
    | none => .error .badPadlock
    | some plaintext => MasterKey.ofBytes plaintext

/-- A sealer as it is shown, without its key. -/
def shown (_ : Sealer) : String :=
  "PadlockSealer \x7b cipher: \"Aes256Gcm\" \x7d"

end Sealer

end TableVault.Crypto
