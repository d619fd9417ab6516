import TableVault.Bytes

namespace TableVault.Crypto.Aes

/-!
# AES-256

Only the forward direction is needed: both modes of operation use the cipher to make
a key stream.

* `RoundKeys` and `expandKey` — the fifteen round keys of a 32-byte key;
* `encryptBlock` — the image of a 16-byte block.

A block is four columns of four bytes, each column a 32-bit word.
-/

/-! ### Arithmetic on bytes -/

/-- Multiplication by `x` in the field with 256 elements. -/
def double (b : UInt8) : UInt8 :=
  (b <<< 1) ^^^ (if b < 0x80 then 0 else 0x1b)

/-- The substitutes of all bytes, in rows by the upper half of the byte. -/
def substitutes : Vector (Vector UInt8 16) 16 :=
  #v[#v[0x63, 0x7c, 0x77, 0x7b, 0xf2, 0x6b, 0x6f, 0xc5, 0x30, 0x01, 0x67, 0x2b, 0xfe, 0xd7, 0xab, 0x76],
    #v[0xca, 0x82, 0xc9, 0x7d, 0xfa, 0x59, 0x47, 0xf0, 0xad, 0xd4, 0xa2, 0xaf, 0x9c, 0xa4, 0x72, 0xc0],
    #v[0xb7, 0xfd, 0x93, 0x26, 0x36, 0x3f, 0xf7, 0xcc, 0x34, 0xa5, 0xe5, 0xf1, 0x71, 0xd8, 0x31, 0x15],
    #v[0x04, 0xc7, 0x23, 0xc3, 0x18, 0x96, 0x05, 0x9a, 0x07, 0x12, 0x80, 0xe2, 0xeb, 0x27, 0xb2, 0x75],
    #v[0x09, 0x83, 0x2c, 0x1a, 0x1b, 0x6e, 0x5a, 0xa0, 0x52, 0x3b, 0xd6, 0xb3, 0x29, 0xe3, 0x2f, 0x84],
    #v[0x53, 0xd1, 0x00, 0xed, 0x20, 0xfc, 0xb1, 0x5b, 0x6a, 0xcb, 0xbe, 0x39, 0x4a, 0x4c, 0x58, 0xcf],
    #v[0xd0, 0xef, 0xaa, 0xfb, 0x43, 0x4d, 0x33, 0x85, 0x45, 0xf9, 0x02, 0x7f, 0x50, 0x3c, 0x9f, 0xa8],
    #v[0x51, 0xa3, 0x40, 0x8f, 0x92, 0x9d, 0x38, 0xf5, 0xbc, 0xb6, 0xda, 0x21, 0x10, 0xff, 0xf3, 0xd2],
    #v[0xcd, 0x0c, 0x13, 0xec, 0x5f, 0x97, 0x44, 0x17, 0xc4, 0xa7, 0x7e, 0x3d, 0x64, 0x5d, 0x19, 0x73],
    #v[0x60, 0x81, 0x4f, 0xdc, 0x22, 0x2a, 0x90, 0x88, 0x46, 0xee, 0xb8, 0x14, 0xde, 0x5e, 0x0b, 0xdb],
    #v[0xe0, 0x32, 0x3a, 0x0a, 0x49, 0x06, 0x24, 0x5c, 0xc2, 0xd3, 0xac, 0x62, 0x91, 0x95, 0xe4, 0x79],
    #v[0xe7, 0xc8, 0x37, 0x6d, 0x8d, 0xd5, 0x4e, 0xa9, 0x6c, 0x56, 0xf4, 0xea, 0x65, 0x7a, 0xae, 0x08],
    #v[0xba, 0x78, 0x25, 0x2e, 0x1c, 0xa6, 0xb4, 0xc6, 0xe8, 0xdd, 0x74, 0x1f, 0x4b, 0xbd, 0x8b, 0x8a],
    #v[0x70, 0x3e, 0xb5, 0x66, 0x48, 0x03, 0xf6, 0x0e, 0x61, 0x35, 0x57, 0xb9, 0x86, 0xc1, 0x1d, 0x9e],
    #v[0xe1, 0xf8, 0x98, 0x11, 0x69, 0xd9, 0x8e, 0x94, 0x9b, 0x1e, 0x87, 0xe9, 0xce, 0x55, 0x28, 0xdf],
    #v[0x8c, 0xa1, 0x89, 0x0d, 0xbf, 0xe6, 0x42, 0x68, 0x41, 0x99, 0x2d, 0x0f, 0xb0, 0x54, 0xbb, 0x16]]

/-- The substitute of a byte, looked up by its halves. -/
def substitute (b : UInt8) : UInt8 :=
  (substitutes.get (Fin.ofNat 16 (b.toNat / 16))).get (Fin.ofNat 16 b.toNat)

/-! ### Columns -/

/-- The column with four given bytes. -/
def column (a b c d : UInt8) : UInt32 :=
  (a.toUInt32 <<< 24) ||| (b.toUInt32 <<< 16) ||| (c.toUInt32 <<< 8) ||| d.toUInt32

/-- The first byte of a column. -/
def byte0 (w : UInt32) : UInt8 := (w >>> 24).toUInt8

/-- The second byte of a column. -/
def byte1 (w : UInt32) : UInt8 := (w >>> 16).toUInt8

/-- The third byte of a column. -/
def byte2 (w : UInt32) : UInt8 := (w >>> 8).toUInt8

/-- The fourth byte of a column. -/
def byte3 (w : UInt32) : UInt8 := w.toUInt8

/-- A column with each byte substituted. -/
def substituteColumn (w : UInt32) : UInt32 :=
  column (substitute (byte0 w)) (substitute (byte1 w)) (substitute (byte2 w)) (substitute (byte3 w))

/-- A column multiplied by the fixed polynomial of the cipher. -/
def mixColumn (w : UInt32) : UInt32 :=
  let a := byte0 w
  let b := byte1 w
  let c := byte2 w
  let d := byte3 w
  let all := a ^^^ b ^^^ c ^^^ d
  column (a ^^^ all ^^^ double (a ^^^ b)) (b ^^^ all ^^^ double (b ^^^ c))
    (c ^^^ all ^^^ double (c ^^^ d)) (d ^^^ all ^^^ double (d ^^^ a))

/-! ### Blocks -/

/-- Four columns. -/
structure Block where
  c0 : UInt32
  c1 : UInt32
  c2 : UInt32
  c3 : UInt32

namespace Block

/-- The columns of the first sixteen bytes of a byte string. -/
def ofBytes (b : Bytes) : Block :=
  let w := Bytes.words b
  ⟨w.getD 0 0, w.getD 1 0, w.getD 2 0, w.getD 3 0⟩

/-- The sixteen bytes of a block. -/
def toBytes (s : Block) : Bytes :=
  [s.c0, s.c1, s.c2, s.c3].flatMap Bytes.wordBytes

/-- The exclusive or of two blocks. -/
def xor (s t : Block) : Block :=
  ⟨s.c0 ^^^ t.c0, s.c1 ^^^ t.c1, s.c2 ^^^ t.c2, s.c3 ^^^ t.c3⟩

/-- One column after substitution and the shift of the rows: its bytes come from four
    columns in turn. -/
def shiftedColumn (p q r s : UInt32) : UInt32 :=
  column (substitute (byte0 p)) (substitute (byte1 q)) (substitute (byte2 r)) (substitute (byte3 s))

/-- All columns after substitution and the shift of the rows. -/
def substituteAndShift (s : Block) : Block :=
  ⟨shiftedColumn s.c0 s.c1 s.c2 s.c3, shiftedColumn s.c1 s.c2 s.c3 s.c0,
    shiftedColumn s.c2 s.c3 s.c0 s.c1, shiftedColumn s.c3 s.c0 s.c1 s.c2⟩

/-- All columns mixed. -/
def mix (s : Block) : Block :=
  ⟨mixColumn s.c0, mixColumn s.c1, mixColumn s.c2, mixColumn s.c3⟩

end Block

/-! ### Round keys -/

/-- The round keys, in the order of their use. -/
abbrev RoundKeys := List Block

/-- A block whose columns are those of `s`, each added to the one before it, the first
    to `w`. -/
def chainColumns (s : Block) (w : UInt32) : Block :=
  let c0 := s.c0 ^^^ w
  let c1 := s.c1 ^^^ c0
  let c2 := s.c2 ^^^ c1
  ⟨c0, c1, c2, s.c3 ^^^ c2⟩

/-- The round keys from a pair of them on, for a list of round constants. -/
def keysFrom (s t : Block) : List UInt8 → RoundKeys
  | [] => [s]
  | r :: rest =>
    let turned := column (byte1 t.c3) (byte2 t.c3) (byte3 t.c3) (byte0 t.c3)
    let s' := chainColumns s (substituteColumn turned ^^^ column r 0 0 0)
    let t' := chainColumns t (substituteColumn s'.c3)
    s :: t :: keysFrom s' t' rest

/-- The fifteen round keys of a 32-byte key. -/
def expandKey (key : Bytes) : RoundKeys :=
  keysFrom (.ofBytes key) (.ofBytes (key.drop 16)) [1, 2, 4, 8, 16, 32, 64]

/-! ### The cipher -/

/-- The rounds after the first key: the last one does not mix the columns. -/
def rounds (s : Block) : RoundKeys → Block
  | [] => s
  | [k] => s.substituteAndShift.xor k
  | k :: ks => rounds (s.substituteAndShift.mix.xor k) ks

/-- The image of a 16-byte block. -/
def encryptBlock (keys : RoundKeys) (block : Bytes) : Bytes :=
  match keys with
  | [] => block
  | k :: ks => (rounds ((Block.ofBytes block).xor k) ks).toBytes

end TableVault.Crypto.Aes
