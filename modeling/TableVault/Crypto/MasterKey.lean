import TableVault.Bytes
import TableVault.Error

namespace TableVault.Crypto

/-!
# Master keys

* `MasterKey` — the 32 bytes that every key of a vault is derived from;
* `MasterKey.ofBytes` — accepts byte strings of exactly that length;
* `MasterKey.shown` — what may be shown of a key.
-/

/-- The bytes in a master key. -/
def keySize : Nat := 32

/-- A master key. -/
structure MasterKey where
  bytes : Bytes
  length_eq : bytes.length = keySize
  deriving DecidableEq

namespace MasterKey

/-- The master key with given bytes. -/
def ofBytes (b : Bytes) : Except VaultError MasterKey :=
  if h : b.length = keySize then .ok ⟨b, h⟩ else .error (.invalidKeySize keySize b.length)

/-- A key as it is shown, without its bytes. -/
def shown (_ : MasterKey) : String :=
  "MasterKey \x7b bytes: \"[REDACTED]\" \x7d"

/-- A key is made from its own bytes. -/
@[simp] theorem ofBytes_bytes (k : MasterKey) : ofBytes k.bytes = .ok k := by
  simp [ofBytes, k.length_eq]

end MasterKey

end TableVault.Crypto
