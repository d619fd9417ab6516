import TableVault.Bytes
import TableVault.Cbor.Double
import TableVault.Cbor.Reader

namespace TableVault.Cbor

/-!
# Item heads

Every item starts with a head: three bits that say its kind and an argument.

* `Head` — the heads that can be read;
* `Head.write` / `Head.writeFloat` — the shortest head of a kind with a given
  argument, and the shortest head of a float;
* `Head.read` — reads any head, the longer forms of an argument included.
-/

/-- The head of an item. A length of `none` announces an item of indefinite length,
    which `stop` ends. -/
inductive Head where
  | unsigned (n : UInt64)
  | negative (n : UInt64)
  | bytes (length : Option Nat)
  | text (length : Option Nat)
  | array (length : Option Nat)
  | map (length : Option Nat)
  | tag (number : UInt64)
  | simple (n : UInt8)
  | float (d : Double)
  | stop
  deriving DecidableEq, Repr

namespace Head

/-- The first byte of a head: its kind and five bits of detail. -/
def initial (kind detail : Nat) : UInt8 :=
  UInt8.ofNat (kind * 32 + detail)

/-! ### Writing -/

/-- The shortest head of kind `kind` with argument `n`: inside the first byte, or in
    1, 2, 4 or 8 bytes after it. -/
def write (kind n : Nat) : Bytes :=
  if n < 24 then [initial kind n]
  else if n < 0x100 then initial kind 24 :: Bytes.bigEndian 1 n
  else if n < 0x10000 then initial kind 25 :: Bytes.bigEndian 2 n
  else if n < 0x100000000 then initial kind 26 :: Bytes.bigEndian 4 n
  else initial kind 27 :: Bytes.bigEndian 8 n

/-- A float in the shortest of the three widths that stands for exactly its bits. -/
def writeFloat (d : Double) : Bytes :=
  match Layout.half.narrow? d with
  | some h => initial 7 25 :: Bytes.bigEndian 2 h
  | none =>
    match Layout.single.narrow? d with
    | some s => initial 7 26 :: Bytes.bigEndian 4 s
    | none => initial 7 27 :: Bytes.bigEndian 8 d.bits.toNat

/-! ### Reading -/

/-- The argument that five bits of detail announce: the bits themselves below 24, a
    number in 1, 2, 4 or 8 bytes, or none at all for 31. -/
def argument (detail : Nat) : Reader (Option Nat) :=
  if detail < 24 then pure (some detail)
  else if detail < 28 then do
    let b ← Reader.take (1 <<< (detail - 24))
    return some (Bytes.ofBigEndian b)
  else if detail < 31 then throw .malformed
  else pure none

/-- A head of the seventh kind: floats in three widths, and simple values. -/
def special (detail n : Nat) : Head :=
  if detail = 25 then .float (Layout.half.widen n)
  else if detail = 26 then .float (Layout.single.widen n)
  else if detail = 27 then .float ⟨UInt64.ofNat n⟩
  else .simple (UInt8.ofNat n)

/-- The head of a kind with an argument. An integer or a tag needs one. -/
def ofArgument (kind detail : Nat) : Option Nat → Except Fault Head
  | some n =>
    match kind with
    | 0 => .ok (.unsigned (UInt64.ofNat n))
    | 1 => .ok (.negative (UInt64.ofNat n))
    | 2 => .ok (.bytes (some n))
    | 3 => .ok (.text (some n))
    | 4 => .ok (.array (some n))
    | 5 => .ok (.map (some n))
    | 6 => .ok (.tag (UInt64.ofNat n))
    | _ => .ok (special detail n)
  | none =>
    match kind with
    | 2 => .ok (.bytes none)
    | 3 => .ok (.text none)
    | 4 => .ok (.array none)
    | 5 => .ok (.map none)
    | 7 => .ok .stop
    | _ => .error .malformed

/-- Reads a head of any form. -/
def read : Reader Head := do
  let b ← Reader.byte
  let n ← argument (b.toNat % 32)
  ofArgument (b.toNat / 32) (b.toNat % 32) n

end Head

end TableVault.Cbor
