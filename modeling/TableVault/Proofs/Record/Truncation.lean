import TableVault.Proofs.Cbor.Local
import TableVault.Proofs.Cbor.Survival
import TableVault.Proofs.Record.RoundTrip

namespace TableVault

/-!
# Records that are cut off, and records that go on

* `Cbor.read_toCbor` — what is read from a whole encoding is all of it;
* `Cbor.fromCbor?_of_prefix` — an encoding that is cut off ends too early;
* `Cbor.fromCbor?_append` — nothing else than that is changed by what is behind an encoding;
* `Record.Encoder.payload_append` — a record that is cut off has a payload that is cut off;
* `truncated_records_are_refused` — so a record that is cut off is not read as content;
* `decoding_is_local` — and one that is decided is read alike whatever is behind it.
-/

/-! ### Encodings that are cut off -/

namespace Cbor

/-- What is read from a whole encoding is all of it. -/
theorem read_toCbor {s : Shape} {a c : s.Carrier} (hsize : (toCbor s a).length < 2 ^ 64)
    (h : fromCbor? s (toCbor s a) = .ok c) : s.read (toCbor s a) = .ok (c, []) := by
  -- Dynamic values are read back changed, the others as they are.
  by_cases hs : s = .value
  · subst hs
    have hanswers : Answers (Shape.read .value) (toCbor .value a) (Value.readBack a nestingLimit) :=
      answers_valueFrom a hsize nestingLimit
    have hread := hanswers []
    rw [fromCbor?_of_answers hanswers] at h
    rw [List.append_nil, h] at hread
    exact hread
  · have hreads := Shape.reads hs a hsize
    have hread := hreads []
    rw [fromCbor?_of_reads hreads] at h
    obtain rfl : a = c := Except.ok.inj h
    rwa [List.append_nil] at hread

/-- An encoding that is cut off ends too early. -/
theorem fromCbor?_of_prefix {s : Shape} {a c : s.Carrier} {b rest : Bytes}
    (hsize : (toCbor s a).length < 2 ^ 64) (h : fromCbor? s (toCbor s a) = .ok c)
    (hcut : b ++ rest = toCbor s a) (hrest : rest ≠ []) :
    fromCbor? s b = .error .truncated := by
  have hwhole := read_toCbor hsize h
  rw [← hcut] at hwhole
  rw [fromCbor?, StateT.run, truncated_of_prefix s.local_read hrest hwhole]

/-! ### Encodings that go on -/

/-- What is read stays read whatever is behind it, and is left over as before. -/
theorem read_append {s : Shape} {b rest : Bytes} {a : s.Carrier} (h : s.read b = .ok (a, rest))
    (later : Bytes) : s.read (b ++ later) = .ok (a, rest ++ later) := by
  have hkept := s.local_read b later
  rw [h] at hkept
  exact hkept

/-- What is decided stays decided whatever is behind it: only an input that ends too early leaves
    something open. -/
theorem fromCbor?_append {s : Shape} {b : Bytes} (h : fromCbor? s b ≠ .error .truncated)
    (later : Bytes) : fromCbor? s (b ++ later) = fromCbor? s b := by
  have hkept := s.local_read b later
  unfold fromCbor? StateT.run at h ⊢
  cases hb : s.read b with
  | ok p => rw [read_append hb later]
  | error e =>
    rw [hb] at hkept h
    rcases hkept with rfl | hsame
    · exact absurd rfl h
    · rw [hsame]

end Cbor

/-! ### Records that are cut off -/

namespace Record

/-- A record that is cut off has a payload that is cut off. -/
theorem Encoder.payload_append (e : Encoder) (flag : Flag) (front rest : Bytes) :
    ∃ later, e.payload flag (front ++ rest) = e.payload flag front ++ later ∧
      later.length = rest.length := by
  cases flag with
  | plain => exact ⟨rest, rfl, rfl⟩
  | encrypted => exact e.cipher.decrypt_append front rest

/-- **A record that is cut off is not read as content.** If the record of content of any shape
    can be read, encrypted or not, and something is cut off from its end, then what is left is
    read as nothing if it is empty, and otherwise ends too early. -/
theorem truncated_records_are_refused (master : Crypto.MasterKey) {s : Cbor.Shape}
    {a : s.Carrier} {encrypt : Bool} {record r : Bytes} {found : Option s.Carrier}
    (hsize : (Cbor.toCbor s a).length < 2 ^ 64)
    (hencode : (Encoder.ofMaster master).encode (.ofShape s a) encrypt = .ok record)
    (hread : (Encoder.ofMaster master).decode s record = .ok found)
    (hcut : r <+: record) (hproper : r ≠ record) :
    (r = [] → (Encoder.ofMaster master).decode s r = .ok none) ∧
    (r ≠ [] → (Encoder.ofMaster master).decode s r = .error (.ofFault .truncated)) := by
  refine ⟨fun hempty => by subst hempty; rfl, fun hne => ?_⟩
  -- The record is its flag with the payload or its ciphertext behind it.
  rw [Content.ofShape, Encoder.encode_value] at hencode
  obtain rfl := Except.ok.inj hencode
  rw [Encoder.decode_frame, Encoder.payload_stored] at hread
  obtain ⟨c, hwhole⟩ : ∃ c, Cbor.fromCbor? s (Cbor.toCbor s a) = .ok c := by
    cases h : Cbor.fromCbor? s (Cbor.toCbor s a) with
    | ok c => exact ⟨c, rfl⟩
    | error e =>
      change (decodeAs s (Cbor.toCbor s a)).map some = _ at hread
      rw [decodeAs, h] at hread
      cases hread
  -- What is left has the same flag, and the front of what stood behind it.
  obtain ⟨rest, hrest⟩ := hcut
  obtain ⟨x, front, rfl⟩ := List.exists_cons_of_ne_nil hne
  obtain ⟨rfl, hstored⟩ := List.cons_eq_cons.mp hrest
  have hmore : rest ≠ [] := by
    rintro rfl
    rw [List.append_nil] at hrest
    exact hproper hrest
  obtain ⟨later, hpayload, hlater⟩ :=
    (Encoder.ofMaster master).payload_append (flagOf encrypt) front rest
  have hfront : (Encoder.ofMaster master).payload (flagOf encrypt) front ++ later =
      Cbor.toCbor s a := by
    rw [← hpayload, ← (Encoder.ofMaster master).payload_stored (flagOf encrypt) (Cbor.toCbor s a)]
    exact congrArg _ hstored
  have hleft : later ≠ [] := by
    rw [← List.length_pos_iff, hlater, List.length_pos_iff]
    exact hmore
  have hdecode := (Encoder.ofMaster master).decode_frame s (flagOf encrypt) front
  rw [decodeAs, Cbor.fromCbor?_of_prefix hsize hwhole hfront hleft] at hdecode
  exact hdecode

/-- A text in an encrypted record of five bytes is not read from the first three of them. -/
theorem truncated_text_is_refused :
    ∃ record, (Encoder.ofMaster ⟨.replicate 32 7, rfl⟩).encode (.ofShape .text "abc") true =
        .ok record ∧ record.length = 5 ∧
      (Encoder.ofMaster ⟨.replicate 32 7, rfl⟩).decode .text record = .ok (some "abc") ∧
      (Encoder.ofMaster ⟨.replicate 32 7, rfl⟩).decode .text (record.take 3) =
        .error (.ofFault .truncated) := by
  let master : Crypto.MasterKey := ⟨.replicate 32 7, rfl⟩
  have hsize : (Cbor.toCbor .text "abc").length = 4 := rfl
  have hencode : (Encoder.ofMaster master).encode (.ofShape .text "abc") true =
      .ok (frame .encrypted ((Encoder.ofMaster master).stored .encrypted (Cbor.toCbor .text "abc"))) :=
    (Encoder.ofMaster master).encode_value _ true
  have hdecode := (Encoder.ofMaster master).decode_stored (s := .text) (by decide) "abc" .encrypted
    (by rw [hsize]; decide)
  have hlength : (frame .encrypted ((Encoder.ofMaster master).stored .encrypted
      (Cbor.toCbor .text "abc"))).length = 5 := by
    rw [frame, List.length_cons, Encoder.length_stored, hsize]
  refine ⟨_, hencode, hlength, hdecode, ?_⟩
  refine (truncated_records_are_refused master (by rw [hsize]; decide) hencode hdecode
    (List.take_prefix 3 _) ?_).2 (by simp [frame])
  intro h
  have hshort := congrArg List.length h
  rw [List.length_take, hlength] at hshort
  omega

/-! ### Records that go on -/

/-- A record that is decided is read alike whatever is behind it. -/
theorem Encoder.decode_append (e : Encoder) {s : Cbor.Shape} {record : Bytes} (hne : record ≠ [])
    (h : e.decode s record ≠ .error (.ofFault .truncated)) (later : Bytes) :
    e.decode s (record ++ later) = e.decode s record := by
  obtain ⟨x, b, rfl⟩ := List.exists_cons_of_ne_nil hne
  cases hflag : Flag.ofByte x with
  | error fault => simp only [decode, split, List.cons_append, hflag, Except.map, bind, Except.bind]
  | ok flag =>
    have hdecode : ∀ b, e.decode s (x :: b) = (decodeAs s (e.payload flag b)).map some := by
      intro b
      simp only [decode, split, hflag, Except.map, bind, Except.bind]
      rfl
    obtain ⟨more, hpayload, -⟩ := e.payload_append flag b later
    have hdecided : Cbor.fromCbor? s (e.payload flag b) ≠ .error .truncated := by
      intro htruncated
      rw [hdecode, decodeAs, htruncated] at h
      exact h rfl
    rw [List.cons_append, hdecode, hdecode, hpayload, decodeAs, decodeAs,
      Cbor.fromCbor?_append hdecided]

/-- **Reading is local to the bytes that it takes.** What is read as content of a shape is read
    alike from a longer input, which is left over as much longer; and what is found wrong with an
    input is found wrong with a longer one, unless it is that the input ends too early. The same
    holds of records, encrypted or not, but for the empty one. -/
theorem decoding_is_local (s : Cbor.Shape) (b later : Bytes) :
    (∀ a rest, s.read b = .ok (a, rest) → s.read (b ++ later) = .ok (a, rest ++ later)) ∧
    (Cbor.fromCbor? s b ≠ .error .truncated →
      Cbor.fromCbor? s (b ++ later) = Cbor.fromCbor? s b) ∧
    ∀ master : Crypto.MasterKey, b ≠ [] →
      (Encoder.ofMaster master).decode s b ≠ .error (.ofFault .truncated) →
      (Encoder.ofMaster master).decode s (b ++ later) = (Encoder.ofMaster master).decode s b := by
  refine ⟨?_, ?_, ?_⟩
  · intro a rest h
    exact Cbor.read_append h later
  · intro h
    exact Cbor.fromCbor?_append h later
  · intro master hne h
    exact (Encoder.ofMaster master).decode_append hne h later

/-- With a break behind them, a list that has been read to its own break, a text that is malformed
    in its second segment and an encrypted record whose flag is not known are decided as
    without it. -/
theorem decoding_is_local_behind_break :
    Cbor.fromCbor? .uint32List ([0x9f, 0x01, 0x18, 0x64, 0xff] ++ [0xff]) = .ok [1, 100] ∧
    Cbor.fromCbor? .text ([0x7f, 0x61, 0x61, 0x62, 0xc3, 0x28] ++ [0xff]) = .error .malformed ∧
    (Encoder.ofMaster ⟨.replicate 32 7, rfl⟩).decode .bool ([2, 0xf5] ++ [0xff]) =
      .error (.unknownFlag 2) := by
  refine ⟨?_, ?_, ?_⟩
  · rw [(decoding_is_local .uint32List [0x9f, 0x01, 0x18, 0x64, 0xff] [0xff]).2.1 (by decide)]
    rfl
  · rw [(decoding_is_local .text [0x7f, 0x61, 0x61, 0x62, 0xc3, 0x28] [0xff]).2.1 (by decide)]
    rfl
  · rw [(decoding_is_local .bool [2, 0xf5] [0xff]).2.2 ⟨.replicate 32 7, rfl⟩ (by decide) (by decide)]
    rfl

end Record

end TableVault
