import TableVault.Proofs.Cbor.Shapes
import TableVault.Proofs.Crypto.Feedback
import TableVault.Proofs.Store.Calls

namespace TableVault.Record

/-!
# Typed content survives in records

* `Encoder.stored` — what a record has behind its flag, and `Encoder.payload_stored`, which
  makes the payload of it again;
* `Encoder.encode_value` and `Encoder.decode_frame` — a record is a flag in front of that;
* `typed_content_round_trips` — content of every typed shape is read back from its record, also
  from a table, and is told apart from an absent record.
-/

/-- The flag of a record that is to be encrypted or not. -/
def flagOf (encrypt : Bool) : Flag :=
  if encrypt then .encrypted else .plain

namespace Encoder

/-- What stands behind the flag of a record with a given payload. -/
def stored (e : Encoder) : Flag → Bytes → Bytes
  | .plain, b => b
  | .encrypted, b => e.cipher.encrypt b

/-- The payload is found again behind the flag. -/
theorem payload_stored (e : Encoder) (flag : Flag) (b : Bytes) :
    e.payload flag (e.stored flag b) = b := by
  cases flag with
  | plain => rfl
  | encrypted => exact e.cipher.decrypt_encrypt b

/-- What stands behind the flag is as long as the payload. -/
theorem length_stored (e : Encoder) (flag : Flag) (b : Bytes) :
    (e.stored flag b).length = b.length := by
  cases flag with
  | plain => rfl
  | encrypted => rw [stored, ← e.cipher.length_decrypt, e.cipher.decrypt_encrypt]

/-- A value is written as a flag and what stands behind it. -/
theorem encode_value (e : Encoder) (v : Cbor.Value) (encrypt : Bool) :
    e.encode (.value v) encrypt =
      .ok (frame (flagOf encrypt) (e.stored (flagOf encrypt) v.encode)) := by
  cases encrypt <;> rfl

/-- A record with a flag is read by its payload. -/
theorem decode_frame (e : Encoder) (s : Cbor.Shape) (flag : Flag) (b : Bytes) :
    e.decode s (frame flag b) = (decodeAs s (e.payload flag b)).map some := by
  rw [decode, split_frame]
  rfl

/-- Content of a typed shape is decoded from its record. -/
theorem decode_stored (e : Encoder) {s : Cbor.Shape} (hs : s ≠ .value) (a : s.Carrier) (flag : Flag)
    (hsize : (Cbor.toCbor s a).length < 2 ^ 64) :
    e.decode s (frame flag (e.stored flag (Cbor.toCbor s a))) = .ok (some a) := by
  have hread : Cbor.fromCbor? s (Cbor.toCbor s a) = .ok a :=
    Cbor.fromCbor?_of_reads (Cbor.Shape.reads hs a hsize)
  rw [decode_frame, payload_stored, decodeAs, hread]
  rfl

end Encoder

/-- A record that decodes is read from wherever it is put in a table. -/
theorem contentAt_put {store : Store} {s : Cbor.Shape} {a : Option s.Carrier} {record : Bytes}
    (h : store.encoder.decode s record = .ok a) (ts : Storage.Tables) (name key : String) :
    store.contentAt (ts.put name key record) name key s = .ok a := by
  rw [Store.contentAt, Storage.Tables.find?_put, if_pos ⟨rfl, rfl⟩]
  simp only [h]
  rfl

/-- **Typed content survives in records.** Under every master key, encrypted or not, content of
    every typed shape is written as a record whose first byte is the flag, and is read back from
    it and from wherever it is put in a table. An empty or absent record is read as nothing, so
    that it is told apart from a null that has been stored. -/
theorem typed_content_round_trips (master : Crypto.MasterKey) {s : Cbor.Shape} (hs : s ≠ .value)
    (a : s.Carrier) (encrypt : Bool) (hsize : (Cbor.toCbor s a).length < 2 ^ 64) :
    (∃ record, (Encoder.ofMaster master).encode (.ofShape s a) encrypt = .ok record ∧
      record.head? = some (if encrypt then 1 else 0) ∧
      (Encoder.ofMaster master).decode s record = .ok (some a) ∧
      ∀ (ts : Storage.Tables) (name key : String),
        (Store.ofMaster master).contentAt (ts.put name key record) name key s = .ok (some a)) ∧
    (Encoder.ofMaster master).decode s [] = .ok none ∧
    ∀ (ts : Storage.Tables) (name key : String), ts.find? name key = none →
      (Store.ofMaster master).contentAt ts name key s = .ok none := by
  have hdecode := (Encoder.ofMaster master).decode_stored hs a (flagOf encrypt) hsize
  refine ⟨⟨_, Encoder.encode_value _ _ encrypt, ?_, hdecode, contentAt_put hdecode⟩, rfl, ?_⟩
  · cases encrypt <;> rfl
  · intro ts name key hnone
    rw [Store.contentAt, hnone]

/-- A stored null is read back encrypted as well, and is not what an empty record is read as. -/
theorem null_round_trips :
    (∃ record, (Encoder.ofMaster ⟨.replicate 32 7, rfl⟩).encode
        (.ofShape .optionalUInt32 none) true = .ok record ∧
      record.head? = some 1 ∧
      (Encoder.ofMaster ⟨.replicate 32 7, rfl⟩).decode .optionalUInt32 record = .ok (some none)) ∧
    (Encoder.ofMaster ⟨.replicate 32 7, rfl⟩).decode .optionalUInt32 [] = .ok none := by
  obtain ⟨⟨record, hencode, hflag, hdecode, -⟩, hempty, -⟩ :=
    typed_content_round_trips ⟨.replicate 32 7, rfl⟩ (s := .optionalUInt32) (by decide) none true
      (by decide)
  exact ⟨⟨record, hencode, hflag, hdecode⟩, hempty⟩

end TableVault.Record
