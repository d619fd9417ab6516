import TableVault.Bytes

namespace TableVault.Crypto.Gcm

/-!
# Galois counter mode

Authenticated encryption without associated data, over a cipher on 16-byte blocks.

* `crypt` — adds the key stream of a nonce; it is its own inverse;
* `tag` — the authentication tag of a ciphertext under a nonce;
* `encrypt` — ciphertext and tag; `decrypt?` — the plaintext, if the tag is right.
-/

/-- The bytes in a block. -/
def blockSize : Nat := 16

/-- The bytes in a tag. -/
def tagSize : Nat := 16

/-! ### Universal hashing -/

/-- The field element whose coefficients, lowest first, are the bits of a block. -/
abbrev Element := BitVec 128

/-- Multiplication by `x`: coefficients move up, and the topmost is reduced. -/
def shift (v : Element) : Element :=
  (v >>> 1) ^^^ (if v.getLsbD 0 then 0xe1000000000000000000000000000000#128 else 0)

/-- The sum of the multiples of `v` for the last `n` coefficients of `x`. -/
def product (x : Element) : (n : Nat) → (v : Element) → Element
  | 0, _ => 0
  | n + 1, v => (if x.getLsbD n then v else 0) ^^^ product x n (shift v)

/-- The element of a block. -/
def element (block : Bytes) : Element :=
  BitVec.ofNat 128 (Bytes.ofBigEndian block)

/-- The hash of a byte string of whole blocks, with hash key `h`. -/
def ghash (h : Element) (b : Bytes) : Bytes :=
  let y := Bytes.foldBlocks blockSize (fun y block => product (y ^^^ element block) 128 h) 0 b
  Bytes.bigEndian 16 y.toNat

/-- A ciphertext padded to whole blocks, followed by its length in bits and that of
    the absent associated data. -/
def hashInput (ciphertext : Bytes) : Bytes :=
  let n := ciphertext.length
  ciphertext ++ List.replicate ((16 - n % 16) % 16) 0 ++ Bytes.bigEndian 8 0 ++
    Bytes.bigEndian 8 (8 * n)

/-! ### The key stream -/

/-- Counter block number `n` of a nonce of twelve bytes. -/
def counterBlock (nonce : Bytes) (n : Nat) : Bytes :=
  nonce ++ Bytes.bigEndian 4 n

/-- The images of `blocks` counter blocks from number `n` on. -/
def keyStream (image : Bytes → Bytes) (nonce : Bytes) : (blocks n : Nat) → Bytes
  | 0, _ => []
  | blocks + 1, n => image (counterBlock nonce n) ++ keyStream image nonce blocks (n + 1)

/-- The text with the key stream of a nonce added, from counter 2 on. -/
def crypt (image : Bytes → Bytes) (nonce text : Bytes) : Bytes :=
  Bytes.xor text (keyStream image nonce ((text.length + 15) / 16) 2)

/-! ### Sealing -/

/-- The tag of a ciphertext: its hash, hidden by the image of counter 1. -/
def tag (image : Bytes → Bytes) (nonce ciphertext : Bytes) : Bytes :=
  let h := element (image (List.replicate 16 0))
  Bytes.xor (ghash h (hashInput ciphertext)) (image (counterBlock nonce 1))

/-- The ciphertext of a plaintext, followed by its tag. -/
def encrypt (image : Bytes → Bytes) (nonce plaintext : Bytes) : Bytes :=
  let c := crypt image nonce plaintext
  c ++ tag image nonce c

/-- The plaintext of a ciphertext that its tag follows, if the tag is right. -/
def decrypt? (image : Bytes → Bytes) (nonce sealed : Bytes) : Option Bytes :=
  let c := sealed.take (sealed.length - tagSize)
  if sealed.drop (sealed.length - tagSize) = tag image nonce c then some (crypt image nonce c)
  else none

end TableVault.Crypto.Gcm
