import TableVault.Bytes

namespace TableVault.Crypto

/-!
# Hashing and key derivation

* `Sha256.hash` — the 32-byte digest of a message. A message is padded to whole blocks
  of 64 bytes. Each block updates eight chaining words in 64 rounds, one for each word
  of the message schedule, of which only the last sixteen are kept;
* `Hmac.sign` — the authentication code of a message under a key, with SHA-256;
* `Hkdf.derive` — a 32-byte key from input key material, a salt and a purpose. Keys
  of that length need a single block of output.
-/

namespace Sha256

/-- The eight chaining words. -/
structure Chain where
  a : UInt32
  b : UInt32
  c : UInt32
  d : UInt32
  e : UInt32
  f : UInt32
  g : UInt32
  h : UInt32

/-- The chaining words before the first block. -/
def Chain.initial : Chain :=
  ⟨0x6a09e667, 0xbb67ae85, 0x3c6ef372, 0xa54ff53a, 0x510e527f, 0x9b05688c, 0x1f83d9ab, 0x5be0cd19⟩

/-- The constant of each round. -/
def roundConstants : List UInt32 :=
  [0x428a2f98, 0x71374491, 0xb5c0fbcf, 0xe9b5dba5, 0x3956c25b, 0x59f111f1, 0x923f82a4, 0xab1c5ed5,
    0xd807aa98, 0x12835b01, 0x243185be, 0x550c7dc3, 0x72be5d74, 0x80deb1fe, 0x9bdc06a7, 0xc19bf174,
    0xe49b69c1, 0xefbe4786, 0x0fc19dc6, 0x240ca1cc, 0x2de92c6f, 0x4a7484aa, 0x5cb0a9dc, 0x76f988da,
    0x983e5152, 0xa831c66d, 0xb00327c8, 0xbf597fc7, 0xc6e00bf3, 0xd5a79147, 0x06ca6351, 0x14292967,
    0x27b70a85, 0x2e1b2138, 0x4d2c6dfc, 0x53380d13, 0x650a7354, 0x766a0abb, 0x81c2c92e, 0x92722c85,
    0xa2bfe8a1, 0xa81a664b, 0xc24b8b70, 0xc76c51a3, 0xd192e819, 0xd6990624, 0xf40e3585, 0x106aa070,
    0x19a4c116, 0x1e376c08, 0x2748774c, 0x34b0bcb5, 0x391c0cb3, 0x4ed8aa4a, 0x5b9cca4f, 0x682e6ff3,
    0x748f82ee, 0x78a5636f, 0x84c87814, 0x8cc70208, 0x90befffa, 0xa4506ceb, 0xbef9a3f7, 0xc67178f2]

/-- A word turned right by `n` bits, for `n` from 1 to 31. -/
def rotateRight (x : UInt32) (n : UInt32) : UInt32 :=
  (x >>> n) ||| (x <<< (32 - n))

/-- One round, with the sum of its constant and its schedule word. -/
def Chain.round (s : Chain) (kw : UInt32) : Chain :=
  let s1 := rotateRight s.e 6 ^^^ rotateRight s.e 11 ^^^ rotateRight s.e 25
  let choice := (s.e &&& s.f) ^^^ (~~~s.e &&& s.g)
  let t1 := s.h + s1 + choice + kw
  let s0 := rotateRight s.a 2 ^^^ rotateRight s.a 13 ^^^ rotateRight s.a 22
  let majority := (s.a &&& s.b) ^^^ (s.a &&& s.c) ^^^ (s.b &&& s.c)
  ⟨t1 + (s0 + majority), s.a, s.b, s.c, s.d + t1, s.e, s.f, s.g⟩

/-- The schedule word after sixteen others. -/
def nextWord (w : List UInt32) : UInt32 :=
  let x := w.getD 1 0
  let y := w.getD 14 0
  let s0 := rotateRight x 7 ^^^ rotateRight x 18 ^^^ (x >>> 3)
  let s1 := rotateRight y 17 ^^^ rotateRight y 19 ^^^ (y >>> 10)
  w.getD 0 0 + s0 + w.getD 9 0 + s1

/-- The rounds for a list of constants, over a window of sixteen schedule words. -/
def rounds : List UInt32 → List UInt32 → Chain → Chain
  | [], _, s => s
  | k :: ks, w, s => rounds ks (w.drop 1 ++ [nextWord w]) (s.round (k + w.getD 0 0))

/-- The chaining words after one more block. -/
def compress (s : Chain) (block : Bytes) : Chain :=
  let t := rounds roundConstants (Bytes.words block) s
  ⟨s.a + t.a, s.b + t.b, s.c + t.c, s.d + t.d, s.e + t.e, s.f + t.f, s.g + t.g, s.h + t.h⟩

/-- The padding of a message of `n` bytes: a set bit, zeros up to 8 bytes short of a
    whole block, and the length in bits. -/
def padding (n : Nat) : Bytes :=
  0x80 :: (List.replicate ((119 - n % 64) % 64) 0 ++ Bytes.bigEndian 8 (8 * n))

/-- The bytes of the chaining words. -/
def Chain.toBytes (s : Chain) : Bytes :=
  [s.a, s.b, s.c, s.d, s.e, s.f, s.g, s.h].flatMap Bytes.wordBytes

/-- The digest of a message. -/
def hash (message : Bytes) : Bytes :=
  (Bytes.foldBlocks 64 compress Chain.initial (message ++ padding message.length)).toBytes

/-- A digest has 32 bytes. -/
@[simp] theorem length_hash (message : Bytes) : (hash message).length = 32 := by
  simp [hash, Chain.toBytes, Bytes.wordBytes]

end Sha256

namespace Hmac

/-- The bytes in a block of the hash function. -/
def blockSize : Nat := 64

/-- A key of exactly one block: longer keys are hashed, shorter ones padded. -/
def blockKey (key : Bytes) : Bytes :=
  let k := if blockSize < key.length then Sha256.hash key else key
  k ++ List.replicate (blockSize - k.length) 0

/-- The authentication code of a message. -/
def sign (key message : Bytes) : Bytes :=
  let k := blockKey key
  Sha256.hash (k.map (· ^^^ 0x5c) ++ Sha256.hash (k.map (· ^^^ 0x36) ++ message))

/-- An authentication code has 32 bytes. -/
@[simp] theorem length_sign (key message : Bytes) : (sign key message).length = 32 := by
  simp [sign]

end Hmac

namespace Hkdf

/-- A 32-byte key. -/
def derive (salt material purpose : Bytes) : Bytes :=
  Hmac.sign (Hmac.sign salt material) (purpose ++ [1])

/-- A derived key has 32 bytes. -/
@[simp] theorem length_derive (salt material purpose : Bytes) :
    (derive salt material purpose).length = 32 := by
  simp [derive]

end Hkdf

end TableVault.Crypto
