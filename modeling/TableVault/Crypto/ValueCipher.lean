import TableVault.Crypto.Aes
import TableVault.Crypto.MasterKey
import TableVault.Crypto.Sha256

namespace TableVault.Crypto

/-!
# The cipher of values

Payloads are encrypted by cipher feedback: each 16-byte block of ciphertext is the
plaintext added to a pad, and the pad is the image of the ciphertext block before it,
for the first block that of the initial vector. A last block may be shorter.

* `Cfb.Register` — the pad of the current block and the ciphertext fed back so far;
* `Cfb.encrypt` / `Cfb.decrypt` — both feed back the ciphertext, byte by byte;
* `ValueCipher` — encrypts payloads under a key and an initial vector that depend on
  the master key alone, so that equal payloads have equal ciphertexts. Ciphertexts are
  as long as their payloads.
-/

namespace Cfb

/-- The bytes in a block. -/
def blockSize : Nat := 16

/-- The state of the feedback: the pad of the current block, and the bytes of its
    ciphertext so far. -/
structure Register where
  pad : Bytes
  fed : Bytes

namespace Register

/-- The register in front of the first block. -/
def start (image : Bytes → Bytes) (iv : Bytes) : Register := ⟨image iv, []⟩

/-- The pad for the next byte. -/
def mask (r : Register) : UInt8 := r.pad.getD r.fed.length 0

/-- The register after a byte of ciphertext: a full block makes the next pad. -/
def feed (image : Bytes → Bytes) (r : Register) (c : UInt8) : Register :=
  let fed := r.fed ++ [c]
  if fed.length = blockSize then ⟨image fed, []⟩ else ⟨r.pad, fed⟩

end Register

/-- The ciphertext of a plaintext, from a register on. -/
def encryptFrom (image : Bytes → Bytes) : Register → Bytes → Bytes
  | _, [] => []
  | r, p :: rest =>
    let c := p ^^^ r.mask
    c :: encryptFrom image (r.feed image c) rest

/-- The plaintext of a ciphertext, from a register on. -/
def decryptFrom (image : Bytes → Bytes) : Register → Bytes → Bytes
  | _, [] => []
  | r, c :: rest => (c ^^^ r.mask) :: decryptFrom image (r.feed image c) rest

/-- The ciphertext of a plaintext. -/
def encrypt (image : Bytes → Bytes) (iv plaintext : Bytes) : Bytes :=
  encryptFrom image (.start image iv) plaintext

/-- The plaintext of a ciphertext. -/
def decrypt (image : Bytes → Bytes) (iv ciphertext : Bytes) : Bytes :=
  decryptFrom image (.start image iv) ciphertext

end Cfb

/-- The bytes in an initial vector. -/
def ivSize : Nat := 16

/-- The key and the initial vector that payloads are encrypted under. -/
structure ValueCipher where
  key : Bytes
  iv : Bytes

namespace ValueCipher

/-- The cipher of a master key: its digest is the key, and the front of the digest of
    that is the initial vector. -/
def ofMaster (master : MasterKey) : ValueCipher :=
  let key := Sha256.hash master.bytes
  ⟨key, (Sha256.hash key).take ivSize⟩

/-- The ciphertext of a payload. -/
def encrypt (c : ValueCipher) (plaintext : Bytes) : Bytes :=
  Cfb.encrypt (Aes.encryptBlock (Aes.expandKey c.key)) c.iv plaintext

/-- The payload of a ciphertext. -/
def decrypt (c : ValueCipher) (ciphertext : Bytes) : Bytes :=
  Cfb.decrypt (Aes.encryptBlock (Aes.expandKey c.key)) c.iv ciphertext

/-- A cipher as it is shown, without its key. -/
def shown (_ : ValueCipher) : String :=
  "ValueCipher \x7b cipher: \"Aes256Cfb\" \x7d"

end ValueCipher

end TableVault.Crypto
