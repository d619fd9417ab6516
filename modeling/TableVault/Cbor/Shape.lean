import Std.Data.ExtTreeMap
import TableVault.Cbor.Record
import TableVault.Cbor.Writer

namespace TableVault.Cbor

/-!
# Shapes

A shape is a type that stored values can be read as.

* `Shape` and `Shape.Carrier` — the shapes and what each holds;
* `Shape.read` — the reader of a shape; tags in front of an item are skipped, except
  where the shape keeps them or an option looks for null;
* `Shape.toValue` — the value that content of a shape is written as;
* `fromCbor?` and `toCbor` — a whole encoded value. Bytes after the first item do
  not matter.
-/

/-- The types that stored values can be read as. -/
inductive Shape where
  | value
  | bool
  | uint8
  | uint32
  | uint64
  | int64
  | double
  | text
  | optionalUInt32
  | byteList
  | uint32List
  | textList
  | counters
  | profile
  | lockState
  deriving DecidableEq, Repr

/-- Numbers by name. -/
abbrev Counters := Std.ExtTreeMap String UInt64

namespace Shape

/-- What a shape holds. -/
abbrev Carrier : Shape → Type
  | value => Value
  | bool => Bool
  | uint8 => UInt8
  | uint32 => UInt32
  | uint64 => UInt64
  | int64 => Int64
  | double => Double
  | text => String
  | optionalUInt32 => Option UInt32
  | byteList => Bytes
  | uint32List => List UInt32
  | textList => List String
  | counters => Counters
  | profile => Profile
  | lockState => LockState

/-! ### Reading -/

/-- A boolean. -/
def readBool : Item Bool := fun h => do
  match ← untag h with
  | .simple n =>
    if n = 20 then return false
    else if n = 21 then return true
    else throw .mismatch
  | _ => throw .mismatch

/-- A float of any width. -/
def readDouble : Item Double := fun h => do
  match ← untag h with
  | .float d => return d
  | _ => throw .mismatch

/-- Null, in either of its forms, or an integer of 32 bits. -/
def readOptional : Item (Option UInt32) := fun h => do
  match h with
  | .simple 22 => return none
  | .simple 23 => return none
  | h => return some (← Cbor.uint32 h)

/-- A map from texts to integers of 64 bits. Of two entries for one text the later
    one stays. -/
def readCounters : Item Counters := fun h => do
  match ← untag h with
  | .map length =>
    forEach length (fun m h => do
      let k ← Cbor.text h
      let n ← Item.next Cbor.uint64
      return m.insert k n) ∅
  | _ => throw .mismatch

/-- The reader of a shape, from the head of the item on. -/
def item : (s : Shape) → Item s.Carrier
  | value => valueFrom nestingLimit
  | bool => readBool
  | uint8 => Cbor.uint8
  | uint32 => Cbor.uint32
  | uint64 => Cbor.uint64
  | int64 => Cbor.int64
  | double => readDouble
  | text => Cbor.text
  | optionalUInt32 => readOptional
  | byteList => Cbor.byteList
  | uint32List => Cbor.list Cbor.uint32 fun b => .ok b.toUInt32
  | textList => Cbor.textList
  | counters => readCounters
  | profile => Profile.read
  | lockState => LockState.read

/-- The reader of a shape. -/
def read (s : Shape) : Reader s.Carrier :=
  Item.next s.item

/-! ### Writing -/

/-- The value that content of a shape is written as. -/
def toValue : (s : Shape) → s.Carrier → Value
  | value, v => v
  | bool, b => .bool b
  | uint8, n => .unsigned n.toUInt64
  | uint32, n => .unsigned n.toUInt64
  | uint64, n => .unsigned n
  | int64, i => .ofInt64 i
  | double, d => .float d
  | text, t => .text t
  | optionalUInt32, none => .null
  | optionalUInt32, some n => .unsigned n.toUInt64
  | byteList, b => LockState.bytesValue b
  | uint32List, ns => .array (ns.map fun n => .unsigned n.toUInt64)
  | textList, ts => .array (ts.map .text)
  | counters, m => .map (m.toList.map fun e => (.text e.1, .unsigned e.2))
  | profile, p => p.toValue
  | lockState, l => l.toValue

end Shape

/-! ### Whole encoded values -/

/-- Reads content of a shape from the front of a byte string. -/
def fromCbor? (s : Shape) (b : Bytes) : Except Fault s.Carrier :=
  match s.read.run b with
  | .ok (a, _) => .ok a
  | .error e => .error e

/-- Writes content of a shape. -/
def toCbor (s : Shape) (a : s.Carrier) : Bytes :=
  (s.toValue a).encode

end TableVault.Cbor
