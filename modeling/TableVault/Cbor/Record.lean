import TableVault.Cbor.Item

namespace TableVault.Cbor

/-!
# Records with named fields

A record is written as a map from field names to values. When it is read, its
fields may come in any order and other entries are passed over, but each field must
come exactly once.

* `LockState` — what a locked database says about its master key;
* `Profile` — a person's name, age and tags;
* `record` — the reader of a map that carries a partly read record along;
* `LockState.read`, `Profile.read` and their `toValue`.
-/

/-- The longest field name that is looked at, in bytes. -/
def fieldNameLimit : Nat := 4096

/-- A field name: a definite text or byte string. -/
def fieldName : Item Bytes := fun h => do
  match ← untag h with
  | .text (some n) =>
    if n ≤ fieldNameLimit then
      let b ← Reader.take n
      if (Utf8.decode? b).isSome then return b else throw .malformed
    else throw .mismatch
  | .bytes (some n) =>
    if n ≤ fieldNameLimit then Reader.take n else throw .mismatch
  | _ => throw .mismatch

/-- A field that may come once: it has no value yet, and gets the next item. -/
def once {α : Type} (present : Option α) (item : Item α) : Reader (Option α) := do
  match present with
  | some _ => throw .mismatch
  | none => return some (← Item.next item)

/-- Carries a partly read record through the entries of a map. `entry` is given the
    name of each field and reads its value. -/
def record {ρ : Type} (entry : ρ → Bytes → Reader ρ) (blank : ρ) : Item ρ := fun h => do
  match ← untag h with
  | .map length => forEach length (fun r h => do entry r (← fieldName h)) blank
  | _ => throw .mismatch

/-- Passes over the value of an unknown field. The map has used one level already. -/
def skipValue : Reader Unit := do
  let _ ← Item.next (valueFrom (nestingLimit - 1))

/-- The value of a field that must have come. -/
def required {α : Type} : Option α → Except Fault α
  | some a => .ok a
  | none => .error .mismatch

/-! ### Fields of simple types -/

/-- An integer between the bounds `lo` and `hi`. -/
def integerWithin (lo hi : Int) : Item Int := fun h => do
  let i ← integer h
  if lo ≤ i ∧ i ≤ hi then return i else throw .mismatch

/-- An integer of 8 bits. -/
def uint8 : Item UInt8 := fun h =>
  return UInt8.ofNat (← integerWithin 0 0xff h).toNat

/-- An integer of 32 bits. -/
def uint32 : Item UInt32 := fun h =>
  return UInt32.ofNat (← integerWithin 0 0xffffffff h).toNat

/-- An integer of 64 bits. -/
def uint64 : Item UInt64 := fun h =>
  return UInt64.ofNat (← integerWithin 0 0xffffffffffffffff h).toNat

/-- A signed integer of 64 bits. -/
def int64 : Item Int64 := fun h =>
  return Int64.ofInt (← integerWithin (-0x8000000000000000) 0x7fffffffffffffff h)

/-- A text, in one piece or in segments. -/
def text : Item String := fun h => do
  match ← untag h with
  | .text length => textString length
  | _ => throw .mismatch

/-- A list: an array of items, or a byte string, whose bytes count as integers. -/
def list {α : Type} (item : Item α) (ofByte : UInt8 → Except Fault α) : Item (List α) := fun h => do
  match ← untag h with
  | .array length => many length item
  | .bytes length => (← byteString length).mapM (ofByte ·)
  | _ => throw .mismatch

/-- A list of bytes. -/
def byteList : Item Bytes := list uint8 .ok

/-- A list of texts. No byte counts as a text. -/
def textList : Item (List String) := list text fun _ => .error .mismatch

/-! ### The lock record -/

/-- What a locked database says about its master key: the version of the record, the
    salt of the sealing key, and the sealed master key. -/
structure LockState where
  version : UInt32
  salt : Bytes
  sealed : Bytes
  deriving DecidableEq, Repr

namespace LockState

/-- A partly read lock record. -/
structure Draft where
  version : Option UInt32 := none
  salt : Option Bytes := none
  sealed : Option Bytes := none

/-- Reads the value of the field `name`. -/
def Draft.entry (r : Draft) (name : Bytes) : Reader Draft := do
  if name = Utf8.encode "version" then return { r with version := ← once r.version uint32 }
  else if name = Utf8.encode "salt" then return { r with salt := ← once r.salt byteList }
  else if name = Utf8.encode "sealed" then return { r with sealed := ← once r.sealed byteList }
  else do
    skipValue
    return r

/-- The lock record, once all fields have come. -/
def Draft.finish (r : Draft) : Except Fault LockState := do
  return { version := ← required r.version, salt := ← required r.salt, sealed := ← required r.sealed }

/-- Reads a lock record. -/
def read : Item LockState := fun h => do
  (← record Draft.entry {} h).finish

/-- The value of a list of bytes: an array of integers. -/
def bytesValue (b : Bytes) : Value :=
  .array (b.map fun x => .unsigned x.toUInt64)

/-- The map that a lock record is written as. -/
def toValue (s : LockState) : Value :=
  .map [(.text "version", .unsigned s.version.toUInt64), (.text "salt", bytesValue s.salt),
    (.text "sealed", bytesValue s.sealed)]

end LockState

/-! ### Profiles -/

/-- A person's name, age and tags. -/
structure Profile where
  name : String
  age : UInt32
  tags : List String
  deriving DecidableEq, Repr

namespace Profile

/-- A partly read profile. -/
structure Draft where
  name : Option String := none
  age : Option UInt32 := none
  tags : Option (List String) := none

/-- Reads the value of the field `name`. -/
def Draft.entry (r : Draft) (name : Bytes) : Reader Draft := do
  if name = Utf8.encode "name" then return { r with name := ← once r.name text }
  else if name = Utf8.encode "age" then return { r with age := ← once r.age uint32 }
  else if name = Utf8.encode "tags" then return { r with tags := ← once r.tags textList }
  else do
    skipValue
    return r

/-- The profile, once all fields have come. -/
def Draft.finish (r : Draft) : Except Fault Profile := do
  return { name := ← required r.name, age := ← required r.age, tags := ← required r.tags }

/-- Reads a profile. -/
def read : Item Profile := fun h => do
  (← record Draft.entry {} h).finish

/-- The map that a profile is written as. -/
def toValue (p : Profile) : Value :=
  .map [(.text "name", .text p.name), (.text "age", .unsigned p.age.toUInt64),
    (.text "tags", .array (p.tags.map .text))]

end Profile

end TableVault.Cbor
