import TableVault.Cbor.Reader
import TableVault.Text.Hex

namespace TableVault

/-!
# Framed records

A record is a flag byte and a payload.

* `CodecError` — why a value cannot be written as a record, or a record not read,
  and its text;
* `Flag` — plain or encrypted;
* `frame` / `split` — a record from its parts, and back. The empty record has no parts
  and stands for an absent value;
* `isEncrypted` — the flag looked at without reading the record.
-/

/-! ### Errors -/

/-- Why a record cannot be written or read. -/
inductive CodecError where
  | encodingFailed (message : String)
  | decodingFailed (fault : Cbor.Fault) (message : String)
  | unknownFlag (flag : UInt8)
  deriving DecidableEq, Repr

namespace CodecError

/-- The error of a value that cannot be read. -/
def ofFault (fault : Cbor.Fault) : CodecError :=
  .decodingFailed fault fault.message

/-- The text of an error. -/
def message : CodecError → String
  | .encodingFailed message => "encoding failed: " ++ message
  | .decodingFailed _ message => "decoding failed: " ++ message
  | .unknownFlag flag => "unknown record flag: 0x" ++ Hex.encode [flag]

end CodecError

/-! ### Frames -/

namespace Record

/-- Whether the payload of a record is encrypted. -/
inductive Flag where
  | plain
  | encrypted
  deriving DecidableEq, Repr

namespace Flag

/-- The byte of a flag. -/
def toByte : Flag → UInt8
  | plain => 0
  | encrypted => 1

/-- The flag of a byte. -/
def ofByte (b : UInt8) : Except CodecError Flag :=
  if b = 0 then .ok plain
  else if b = 1 then .ok encrypted
  else .error (.unknownFlag b)

/-- A flag is read back from its byte. -/
@[simp] theorem ofByte_toByte (f : Flag) : ofByte f.toByte = .ok f := by
  cases f <;> rfl

end Flag

/-- The record with a given flag and payload. -/
def frame (flag : Flag) (payload : Bytes) : Bytes :=
  flag.toByte :: payload

/-- The flag and the payload of a record, none if it is empty. -/
def split : Bytes → Except CodecError (Option (Flag × Bytes))
  | [] => .ok none
  | b :: payload => (Flag.ofByte b).map fun flag => some (flag, payload)

/-- Whether the first byte of a record says that it is encrypted. -/
def isEncrypted (record : Bytes) : Bool :=
  record.head? == some Flag.encrypted.toByte

/-- A record splits into the parts that it was made from. -/
@[simp] theorem split_frame (flag : Flag) (payload : Bytes) :
    split (frame flag payload) = .ok (some (flag, payload)) := by
  simp [split, frame, Except.map]

/-- A record is encrypted exactly if it was framed so. -/
@[simp] theorem isEncrypted_frame (flag : Flag) (payload : Bytes) :
    isEncrypted (frame flag payload) = (flag == .encrypted) := by
  cases flag <;> rfl

end Record

end TableVault
