import TableVault.Proofs.Cbor.Integers
import TableVault.Proofs.Cbor.Survival
import TableVault.Proofs.Padlock.Verdict

namespace TableVault.Cbor

/-!
# Lock records in any order

A lock record is written with its three fields in one order and in one spelling. It is read from a
map with the three fields in any order and spelling, and with anything else in between.

* `SpellsList` — the bytes of a list of bytes: an array of integers or a byte string;
* `Entry` and `SpellsMap` — the entries of a map, and the bytes that the map is spelled in;
* `Draft.put` — what an entry adds to a partly read lock record, and `gather` — what all entries
  come to;
* `SpellsEntry.answers` — one entry is read, and one that means nothing passed over to its end;
* `fromCbor?_of_spellsMap` — what is read is what the entries come to, in any order;
* `lock_record_reads_in_any_order` — so it is from the system table.
-/

/-! ### Lists of bytes -/

/-- The bytes of a list of bytes: an array of integers, or a byte string, with a length or without
    one. -/
inductive SpellsList : Bytes → Bytes → Prop
  | array {length : Option Nat} {head b content : Bytes} {bs : List Bytes}
    (hhead : Head.Spelled (.array length) head) (hb : Sequenced length bs b)
    (hitems : List.Forall₂ (fun x item => SpellsInteger item x.toNat) content bs) :
    SpellsList (head ++ b) content
  | bytes {b content : Bytes} (h : SpellsBytes b content) : SpellsList b content

/-- A list of bytes is read however it is spelled. -/
theorem SpellsList.reads {b content : Bytes} (h : SpellsList b content) :
    Reads (Item.next byteList) b content := by
  cases h with
  | array hhead hb hitems =>
    refine hhead.reads.next (Reads.untagged (by simp) ?_)
    exact hb.reads_many (hitems.imp fun x item hx => ⟨hx.opens, (reads_integer hx).uint8⟩)
  | bytes h =>
    obtain ⟨hhead, hpieces⟩ := h
    refine hhead.reads.next (Reads.untagged (by simp) ?_)
    have hbytes : ∀ b : Bytes, Reads (b.mapM fun x => (liftM (Except.ok x : Except Fault UInt8) :
        Reader UInt8)) [] b := by
      intro b
      show Reads (b.mapM fun x => (pure x : Reader UInt8)) [] b
      rw [List.mapM_pure, List.map_id']
      exact Reads.pure b
    have hread := hpieces.reads_byteString.bind (hbytes _)
    rwa [List.append_nil] at hread

/-! ### Entries -/

/-- An entry of a map that a lock record is read from: one of its three fields, or anything
    else. -/
inductive Entry where
  | version (n : UInt32)
  | salt (b : Bytes)
  | sealed (b : Bytes)
  | other (name : String) (v : Value)

namespace Entry

/-- The version that an entry gives. -/
def version? : Entry → Option UInt32
  | version n => some n
  | _ => none

/-- The salt that an entry gives. -/
def salt? : Entry → Option Bytes
  | salt b => some b
  | _ => none

/-- The sealed key that an entry gives. -/
def sealed? : Entry → Option Bytes
  | sealed b => some b
  | _ => none

end Entry

/-- A value that can be read by itself, and is nested at least one level less deep than such a value
    may be, since the map around it takes one. Its encoding is no longer than a memory. -/
structure Passable (v : Value) : Prop where
  nesting : v.nesting ≤ 255
  size : (toCbor .value v).length < 2 ^ 64
  accepted : ∃ w, fromCbor? .value (toCbor .value v) = .ok w

/-- The bytes of an entry: its name, and its value in any spelling. What means nothing is spelled as
    it is written. -/
inductive SpellsEntry : Entry → Bytes → Prop
  | version {n : UInt32} {name value : Bytes} (hname : SpellsName "version" name)
    (hvalue : SpellsInteger value n.toNat) : SpellsEntry (.version n) (name ++ value)
  | salt {b name value : Bytes} (hname : SpellsName "salt" name) (hvalue : SpellsList value b) :
    SpellsEntry (.salt b) (name ++ value)
  | sealed {b name value : Bytes} (hname : SpellsName "sealed" name) (hvalue : SpellsList value b) :
    SpellsEntry (.sealed b) (name ++ value)
  | other {key : String} {name : Bytes} {v : Value} (hname : SpellsName key name)
    (hlength : (Utf8.encode key).length ≤ 4096)
    (hkey : key ≠ "version" ∧ key ≠ "salt" ∧ key ≠ "sealed") (hvalue : Passable v) :
    SpellsEntry (.other key v) (name ++ toCbor .value v)

/-- The bytes of a map with given entries, with a length or without one. -/
inductive SpellsMap (entries : List Entry) : Bytes → Prop
  | intro {length : Option Nat} {head b : Bytes} {bs : List Bytes}
    (hhead : Head.Spelled (.map length) head) (hb : Sequenced length bs b)
    (hentries : List.Forall₂ SpellsEntry entries bs) : SpellsMap entries (head ++ b)

/-! ### What entries come to -/

/-- Fills a place that must be empty. -/
def place {α : Type} (present : Option α) (a : α) : Except Fault (Option α) :=
  match present with
  | some _ => .error .mismatch
  | none => .ok (some a)

/-- What an entry adds to a partly read lock record. -/
def LockState.Draft.put (r : LockState.Draft) : Entry → Except Fault LockState.Draft
  | .version n => do return { r with version := ← place r.version n }
  | .salt b => do return { r with salt := ← place r.salt b }
  | .sealed b => do return { r with sealed := ← place r.sealed b }
  | .other _ _ => .ok r

/-- The only member of a list. -/
def sole {α : Type} : List α → Except Fault α
  | [a] => .ok a
  | _ => .error .mismatch

/-- A list without a single member is a mismatch. -/
theorem sole_of_length_ne {α : Type} {xs : List α} (h : xs.length ≠ 1) :
    sole xs = .error .mismatch := by
  match xs with
  | [] => rfl
  | [a] => exact absurd rfl h
  | _ :: _ :: _ => rfl

/-- What entries come to that give the fields. Each must be given exactly once. -/
def assemble (versions : List UInt32) (salts seals : List Bytes) : Except Fault LockState := do
  return { version := ← sole versions, salt := ← sole salts, sealed := ← sole seals }

/-- A field that is not given exactly once is a mismatch, whatever the others are. -/
theorem assemble_of_length_ne {versions : List UInt32} {salts seals : List Bytes}
    (h : versions.length ≠ 1 ∨ salts.length ≠ 1 ∨ seals.length ≠ 1) :
    assemble versions salts seals = .error .mismatch := by
  have hcases : ∀ {α : Type} (xs : List α),
      (xs.length = 1 ∧ ∃ a, sole xs = .ok a) ∨ sole xs = .error .mismatch := by
    intro α xs
    by_cases hlength : xs.length = 1
    · obtain ⟨a, rfl⟩ := List.length_eq_one_iff.mp hlength
      exact .inl ⟨hlength, a, rfl⟩
    · exact .inr (sole_of_length_ne hlength)
  rw [assemble]
  rcases hcases versions with ⟨hone, version, hversion⟩ | hversion
  · rcases hcases salts with ⟨hone', salt, hsalt⟩ | hsalt
    · have hseals : seals.length ≠ 1 := by omega
      rw [hversion, hsalt, sole_of_length_ne hseals]
      rfl
    · rw [hversion, hsalt]
      rfl
  · rw [hversion]
    rfl

/-- What entries come to, in any order. -/
def gather (entries : List Entry) : Except Fault LockState :=
  assemble (entries.filterMap Entry.version?) (entries.filterMap Entry.salt?)
    (entries.filterMap Entry.sealed?)

/-- **Entries come to the same in any order**, from a record on that is partly read. -/
theorem foldlM_put (entries : List Entry) (r : LockState.Draft) :
    (entries.foldlM LockState.Draft.put r >>= LockState.Draft.finish) =
      assemble (r.version.toList ++ entries.filterMap Entry.version?)
        (r.salt.toList ++ entries.filterMap Entry.salt?)
        (r.sealed.toList ++ entries.filterMap Entry.sealed?) := by
  induction entries generalizing r with
  | nil =>
    obtain ⟨version, salt, sealed⟩ := r
    cases version <;> cases salt <;> cases sealed <;> rfl
  | cons e entries ih =>
    rw [List.foldlM_cons, bind_assoc]
    cases e with
    | version n =>
      rw [LockState.Draft.put]
      cases hpresent : r.version with
      | none => exact ih { r with version := some n }
      | some m => exact (assemble_of_length_ne (.inl (by simp [Entry.version?]))).symm
    | salt b =>
      rw [LockState.Draft.put]
      cases hpresent : r.salt with
      | none => exact ih { r with salt := some b }
      | some m => exact (assemble_of_length_ne (.inr (.inl (by simp [Entry.salt?])))).symm
    | sealed b =>
      rw [LockState.Draft.put]
      cases hpresent : r.sealed with
      | none => exact ih { r with sealed := some b }
      | some m => exact (assemble_of_length_ne (.inr (.inr (by simp [Entry.sealed?])))).symm
    | other name v => exact ih r

/-! ### Reading -/

/-- A field that may come once is answered by its place. -/
theorem answers_once {α : Type} {item : Item α} {present : Option α} {b : Bytes} {a : α}
    (h : Reads (Item.next item) b a) : Answers (once present item) b (place present a) := by
  cases present with
  | none => exact reads_once h
  | some c => exact fun rest => rfl

/-- What can be read by itself is passed over to its end. -/
theorem Passable.reads_skip {v : Value} (h : Passable v) :
    Reads skipValue (toCbor .value v) () := by
  classical
  have hnesting := h.nesting
  obtain ⟨w, haccepted⟩ := h.accepted
  have halone : Answers (Shape.read .value) (toCbor .value v) (v.readBack nestingLimit) :=
    answers_valueFrom v h.size nestingLimit
  rw [fromCbor?_of_answers halone, Value.readBack_eq (hnesting.trans (by decide))] at haccepted
  -- One level less does not matter, and nothing else could be wrong with the value.
  have hinside : Answers (Item.next (valueFrom 255)) (toCbor .value v) (v.readBack 255) :=
    answers_valueFrom v h.size 255
  rw [Value.readBack_eq hnesting, haccepted] at hinside
  exact Reads.map (fun _ => ()) hinside

/-- **An entry is read.** -/
theorem SpellsEntry.answers {e : Entry} {b : Bytes} (h : SpellsEntry e b) (r : LockState.Draft) :
    Answers (Item.next fun h => do r.entry (← fieldName h)) b (r.put e) := by
  rw [Item.next_bind]
  cases h with
  | version hname hvalue =>
    refine Answers.after (reads_fieldName hname (by decide)) ?_
    rw [LockState.Draft.entry, if_pos rfl]
    exact (answers_once (reads_integer hvalue).uint32).map fun v => { r with version := v }
  | salt hname hvalue =>
    refine Answers.after (reads_fieldName hname (by decide)) ?_
    rw [LockState.Draft.entry, if_neg (by decide), if_pos rfl]
    exact (answers_once hvalue.reads).map fun v => { r with salt := v }
  | sealed hname hvalue =>
    refine Answers.after (reads_fieldName hname (by decide)) ?_
    rw [LockState.Draft.entry, if_neg (by decide), if_neg (by decide), if_pos rfl]
    exact (answers_once hvalue.reads).map fun v => { r with sealed := v }
  | @other key name v hname hlength hkey hvalue =>
    refine Answers.after (reads_fieldName hname hlength) ?_
    obtain ⟨hversion, hsalt, hsealed⟩ := hkey
    rw [LockState.Draft.entry, if_neg (Utf8.encode_injective.ne hversion),
      if_neg (Utf8.encode_injective.ne hsalt), if_neg (Utf8.encode_injective.ne hsealed)]
    exact hvalue.reads_skip.map fun _ => r

/-- An entry begins with its name. -/
theorem SpellsEntry.opens {e : Entry} {b : Bytes} (h : SpellsEntry e b) : Opens b := by
  have hname : ∀ {key : String} {name value : Bytes}, SpellsName key name → Opens (name ++ value) := by
    rintro key name value ⟨hhead⟩
    rw [List.append_assoc]
    exact ⟨_, _, _, rfl, Head.reads_announced (by omega) rfl hhead, by simp⟩
  cases h with
  | version h _ | salt h _ | sealed h _ | other h _ _ _ => exact hname h

/-- The entries of a map are put into a blank record, one after another. -/
theorem SpellsMap.answers {entries : List Entry} {b : Bytes} (h : SpellsMap entries b) :
    Answers (Item.next (record LockState.Draft.entry {})) b
      (entries.foldlM LockState.Draft.put {}) := by
  obtain ⟨hhead, hb, hentries⟩ := h
  refine Answers.after hhead.reads ?_
  refine Answers.after (reads_untag (by simp)) ?_
  exact Answers.forEach hb (hentries.imp fun e b he => ⟨he.opens, he.answers⟩) {}

/-- **What is read of a map is what its entries come to**, in any order and in any spelling. -/
theorem fromCbor?_of_spellsMap {entries : List Entry} {b : Bytes} (h : SpellsMap entries b) :
    fromCbor? .lockState b = gather entries := by
  apply fromCbor?_of_answers
  have hfinish : ∀ r : LockState.Draft,
      Answers (liftM r.finish : Reader LockState) [] r.finish := by
    intro r rest
    cases r.finish <;> rfl
  have hall := h.answers.bind fun r _ => hfinish r
  rw [List.append_nil, foldlM_put] at hall
  show Answers (Item.next fun h => record LockState.Draft.entry {} h >>= fun r => liftM r.finish) b _
  rw [Item.next_bind]
  exact hall

end TableVault.Cbor

namespace TableVault.Padlock

open Storage Record

/-! ### The system table -/

section Reading

variable {σ : Type} [Backend σ] [LawfulBackend σ]

/-- A plain system record is read as its payload is. -/
theorem outcome_readSystem_plain (shape : Cbor.Shape) {s : σ} {ts : Tables} (hs : view s = some ts)
    {key : String} {payload : Bytes}
    (hrecord : ts.find? systemTable key = some (frame .plain payload)) :
    (outcome (readSystem shape key) s).1 =
      match Cbor.fromCbor? shape payload with
      | .ok content => .ok (some content)
      | .error fault => .error (.codec (.decodingFailed fault fault.message)) := by
  obtain ⟨s', hrun, -⟩ := (readSystem_runs (σ := σ) shape key ts).outcome_of_look hs
  rw [outcome_of_answering hrun, hrecord]
  exact readRecord_plain shape key payload

/-- **A lock record is read in any order.** On any open storage, whatever map the record flagged
    plain holds: if its entries give the version, the salt and the sealed key once each, it is read
    as the lock record of these, wherever they stand, however they are spelled, and whatever else
    the map has in between. If one of them is missing or given more than once, the record is a
    mismatch. -/
theorem lock_record_reads_in_any_order {s : σ} {ts : Tables} (hs : view s = some ts) {key : String}
    {payload : Bytes} (hrecord : ts.find? systemTable key = some (frame .plain payload))
    {entries : List Cbor.Entry} (hspells : Cbor.SpellsMap entries payload) :
    (∀ state : Cbor.LockState,
      entries.filterMap Cbor.Entry.version? = [state.version] →
      entries.filterMap Cbor.Entry.salt? = [state.salt] →
      entries.filterMap Cbor.Entry.sealed? = [state.sealed] →
      (outcome (readSystem .lockState key) s).1 = .ok (some state)) ∧
    ((entries.filterMap Cbor.Entry.version?).length ≠ 1 ∨
      (entries.filterMap Cbor.Entry.salt?).length ≠ 1 ∨
      (entries.filterMap Cbor.Entry.sealed?).length ≠ 1 →
      (outcome (readSystem .lockState key) s).1 =
        .error (.codec (.decodingFailed .mismatch Cbor.Fault.mismatch.message))) := by
  have hread := outcome_readSystem_plain .lockState hs hrecord
  rw [Cbor.fromCbor?_of_spellsMap hspells, Cbor.gather] at hread
  constructor
  · intro state hversion hsalt hsealed
    rw [hread, hversion, hsalt, hsealed]
    rfl
  · intro hfaulty
    rw [hread, Cbor.assemble_of_length_ne hfaulty]

/-- The lock record in memory as a map without a length, from the sealed key to the salt, with a
    note in between: the version is in two bytes, the sealed key a byte string, and the salt an
    array without a length. With the salt given twice it is a mismatch. -/
theorem lock_record_reads_in_any_order_memory :
    let read (payload : Bytes) := (outcome (readSystem .lockState lockKey)
      (⟨some ((∅ : Tables).put systemTable lockKey (frame .plain payload))⟩ : Memory)).1
    read ([0xbf, 0x66] ++ Utf8.encode "sealed" ++ [0x43, 1, 2, 3, 0x64] ++ Utf8.encode "note" ++
        [0x82, 1, 0xf6, 0x67] ++ Utf8.encode "version" ++ [0x18, 1, 0x64] ++ Utf8.encode "salt" ++
        [0x9f, 0, 0x18, 0xff, 0xff, 0xff]) =
      .ok (some { version := 1, salt := [0, 0xff], sealed := [1, 2, 3] }) ∧
    read ([0xa4, 0x64] ++ Utf8.encode "salt" ++ [0x40, 0x66] ++ Utf8.encode "sealed" ++
        [0x40, 0x64] ++ Utf8.encode "salt" ++ [0x40, 0x67] ++ Utf8.encode "version" ++ [1]) =
      .error (.codec (.decodingFailed .mismatch "the item has the wrong kind or range")) := by
  intro read
  have hfind : ∀ payload, ((∅ : Tables).put systemTable lockKey (frame .plain payload)).find?
      systemTable lockKey = some (frame .plain payload) := by
    intro payload
    rw [Tables.find?_put, if_pos ⟨rfl, rfl⟩]
  have hname : ∀ name, (Utf8.encode name).length < 24 → Cbor.SpellsName name
      (Cbor.Head.initial 3 (Utf8.encode name).length :: Utf8.encode name) :=
    fun name hlength => .intro (.intro (.inside hlength))
  have hbytes : ∀ b : Bytes, b.length < 24 →
      Cbor.SpellsList (Cbor.Head.initial 2 b.length :: b) b := by
    intro b hlength
    have hstring := Cbor.SpellsBytes.intro (.bytes (.intro (.inside hlength))) (.whole b)
    rw [List.flatten_singleton] at hstring
    exact .bytes hstring
  have hsealed := Cbor.SpellsEntry.sealed (hname "sealed" (by decide)) (hbytes [1, 2, 3] (by decide))
  have hnote : Cbor.SpellsEntry (.other "note" (.array [.unsigned 1, .null])) _ :=
    .other (hname "note" (by decide)) (by decide) (by decide)
      ⟨by decide, by decide, .array [.unsigned 1, .null], rfl⟩
  have hversion : Cbor.SpellsEntry (.version 1) _ :=
    .version (hname "version" (by decide)) (.unsigned (.intro (.behind 0 (by decide) (by decide))))
  have hlist : Cbor.SpellsList _ [0, 0xff] := .array .openArray (.untilStop _)
    (.cons (.unsigned (.intro (.inside (by decide))))
      (.cons (.unsigned (.intro (.behind 0 (by decide) (by decide)))) .nil))
  have hsalt := Cbor.SpellsEntry.salt (hname "salt" (by decide)) hlist
  constructor
  · have hmap := Cbor.SpellsMap.intro .openMap (.untilStop _)
      (.cons hsealed (.cons hnote (.cons hversion (.cons hsalt .nil))))
    exact (lock_record_reads_in_any_order (σ := Memory) (s := ⟨some _⟩) rfl (hfind _) hmap).1
      { version := 1, salt := [0, 0xff], sealed := [1, 2, 3] } rfl rfl rfl
  · have hempty := hbytes [] (by decide)
    have hsaltEntry := Cbor.SpellsEntry.salt (hname "salt" (by decide)) hempty
    have hsealedEntry := Cbor.SpellsEntry.sealed (hname "sealed" (by decide)) hempty
    have hversionEntry : Cbor.SpellsEntry (.version 1) _ :=
      .version (hname "version" (by decide)) (.unsigned (.intro (.inside (by decide))))
    have hmap := Cbor.SpellsMap.intro (.map (.intro (.inside (by decide)))) (.counted _)
      (.cons hsaltEntry (.cons hsealedEntry (.cons hsaltEntry (.cons hversionEntry .nil))))
    exact (lock_record_reads_in_any_order (σ := Memory) (s := ⟨some _⟩) rfl (hfind _) hmap).2
      (.inr (.inl (by decide)))

end Reading

end TableVault.Padlock
