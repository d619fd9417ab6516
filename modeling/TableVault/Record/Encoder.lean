import TableVault.Cbor.Shape
import TableVault.Crypto.ValueCipher
import TableVault.Record.Flag

namespace TableVault

/-!
# Content and its records

* `Content` — what a caller hands over to be stored: a value, or something that its
  owner cannot turn into one;
* `Content.encode` and `decodeAs` — the payload of a record, written and read;
* `Record.Encoder` — writes content as records and reads records back, under the master
  key of a vault. The empty record is read as an absent value.
-/

/-- What a caller hands over to be stored. -/
inductive Content where
  | value (v : Cbor.Value)
  /-- Something that fails to be written, for a given reason. -/
  | unwritable (reason : String)

namespace Content

/-- Content of a shape. -/
def ofShape (s : Cbor.Shape) (a : s.Carrier) : Content :=
  .value (s.toValue a)

/-- The payload that content is stored as. -/
def encode : Content → Except CodecError Bytes
  | .value v => .ok v.encode
  | .unwritable reason => .error (.encodingFailed reason)

end Content

/-- Reads a payload as content of a shape. -/
def decodeAs (s : Cbor.Shape) (payload : Bytes) : Except CodecError s.Carrier :=
  (Cbor.fromCbor? s payload).mapError CodecError.ofFault

/-! ### Records under a master key -/

namespace Record

/-- Writes and reads the records of a vault. -/
structure Encoder where
  cipher : Crypto.ValueCipher

namespace Encoder

/-- The encoder of a master key. -/
def ofMaster (master : Crypto.MasterKey) : Encoder :=
  ⟨.ofMaster master⟩

/-- The record of some content, encrypted if asked for. -/
def encode (e : Encoder) (content : Content) (encrypt : Bool) : Except CodecError Bytes := do
  let payload ← content.encode
  return if encrypt then frame .encrypted (e.cipher.encrypt payload) else frame .plain payload

/-- The payload of a record with a given flag. -/
def payload (e : Encoder) : Flag → Bytes → Bytes
  | .plain, b => b
  | .encrypted, b => e.cipher.decrypt b

/-- The content of a record, read as a shape, or none if the record is empty. -/
def decode (e : Encoder) (s : Cbor.Shape) (record : Bytes) : Except CodecError (Option s.Carrier) := do
  match ← split record with
  | none => return none
  | some (flag, b) => return some (← decodeAs s (e.payload flag b))

end Encoder

end Record

end TableVault
