import TableVault.Proofs.Cbor.Reads
import TableVault.Proofs.Text.Utf8Scan

namespace TableVault.Cbor

/-!
# Lock records are read back

* `SpellsName` — the bytes of a field name, which need not be as short as they could be;
* `Fills` — the entries that lead from one partly read record to another;
* `reads_record` — a map of entries that fill a record is read back as that record;
* `reads_lockState` — a lock record is read back.
-/

/-! ### Fields -/

/-- The bytes of a field name: a text in one piece, behind a head of any width. A text in segments is
    no field name. -/
inductive SpellsName (name : String) : Bytes → Prop
  | intro {head : Bytes} (hhead : Head.Announces 3 (Utf8.encode name).length head) :
    SpellsName name (head ++ Utf8.encode name)

/-- A written text spells a name. -/
theorem spellsName_encode {name : String} (hlength : (Utf8.encode name).length ≤ fieldNameLimit) :
    SpellsName name (Value.text name).encode := by
  rw [Value.encode]
  refine .intro (Head.announces_write 3 ?_)
  exact lt_of_le_of_lt hlength (by decide)

/-- A field name is read. -/
theorem reads_fieldName {name : String} {b : Bytes} (h : SpellsName name b)
    (hlength : (Utf8.encode name).length ≤ fieldNameLimit) :
    Reads (Item.next fieldName) b (Utf8.encode name) := by
  obtain ⟨hhead⟩ := h
  have hvalid : (Utf8.decode? (Utf8.encode name)).isSome := by
    rw [Utf8.decode?_encode]
    rfl
  have hchecked : Reads (do
      let b ← Reader.take (Utf8.encode name).length
      if (Utf8.decode? b).isSome then return b else throw .malformed)
      (Utf8.encode name ++ []) (Utf8.encode name) := by
    refine (Reads.take (Utf8.encode name)).bind ?_
    rw [if_pos hvalid]
    exact Reads.pure _
  rw [List.append_nil] at hchecked
  refine Reads.next (Head.reads_announced (by omega) rfl hhead) ?_
  refine Reads.untagged (by simp) ?_
  show Reads (if (Utf8.encode name).length ≤ fieldNameLimit then _ else _) _ _
  rw [if_pos hlength]
  exact hchecked

/-- A field of a record is read back by its name. -/
theorem reads_field {ρ : Type} {entry : ρ → Bytes → Reader ρ} {r r' : ρ} {name : String} {b : Bytes}
    (hlength : (Utf8.encode name).length ≤ fieldNameLimit)
    (hentry : Reads (entry r (Utf8.encode name)) b r') :
    Reads (Item.next fun h => do entry r (← fieldName h)) ((Value.text name).encode ++ b) r' := by
  rw [Item.next_bind]
  exact (reads_fieldName (spellsName_encode hlength) hlength).bind hentry

/-- The value of a field that has not come yet is read back. -/
theorem reads_once {α : Type} {item : Item α} {b : Bytes} {a : α} (h : Reads (Item.next item) b a) :
    Reads (once none item) b (some a) :=
  h.map some

/-- Entries that lead from one partly read record to another: each of them is a field whose
    value is read. -/
inductive Fills {ρ : Type} (entry : ρ → Bytes → Reader ρ) : ρ → List (Value × Value) → ρ → Prop
  | done (r : ρ) : Fills entry r [] r
  | field {r next last : ρ} {name : String} {v : Value} {rest : List (Value × Value)}
      (hlength : (Utf8.encode name).length ≤ fieldNameLimit)
      (hentry : Reads (entry r (Utf8.encode name)) v.encode next) (hrest : Fills entry next rest last) :
      Fills entry r ((.text name, v) :: rest) last

/-- **A record is read back from the entries that fill it.** -/
theorem reads_record {ρ : Type} {entry : ρ → Bytes → Reader ρ} {blank r : ρ}
    {entries : List (Value × Value)} (hlength : entries.length < 2 ^ 64)
    (h : Fills entry blank entries r) :
    Reads (Item.next (record entry blank)) (Value.map entries).encode r := by
  have hentries : Reads (counted (fun r h => do entry r (← fieldName h)) entries.length blank)
      (Value.encodeEntries entries) r := by
    clear hlength
    induction h with
    | done r => exact Reads.pure r
    | field hname hentry _ ih =>
      rw [List.length_cons, counted_succ, Value.encodeEntries]
      exact (reads_field hname hentry).bind ih
  rw [Value.encode]
  refine Reads.next (Head.reads_write (h := .map (some entries.length)) (by omega) hlength rfl) ?_
  exact Reads.untagged (by simp) hentries

/-- A record is read back if its draft is and is complete. -/
theorem Reads.finish {ρ α : Type} {item : Item ρ} {finish : ρ → Except Fault α} {b : Bytes} {r : ρ}
    {a : α} (hdraft : Reads (Item.next item) b r) (hfinish : finish r = .ok a) :
    Reads (Item.next fun h => do finish (← item h)) b a := by
  have h := hdraft.bind (f := fun r => liftM (finish r)) (Reads.lift hfinish)
  rw [List.append_nil] at h
  rw [Item.next_bind]
  exact h

/-! ### The lock record -/

/-- **A lock record is read back.** -/
theorem reads_lockState (s : LockState) (hsalt : s.salt.length < 2 ^ 64)
    (hsealed : s.sealed.length < 2 ^ 64) :
    Reads (Item.next LockState.read) s.toValue.encode s := by
  -- Each field fills one place of the draft, in the order in which the record is written.
  have hversion := (reads_once (reads_uint32 s.version)).map fun v =>
    ({ version := v } : LockState.Draft)
  have hsaltEntry := (reads_once (reads_byteList hsalt)).map fun v =>
    ({ version := some s.version, salt := v } : LockState.Draft)
  have hsealedEntry := (reads_once (reads_byteList hsealed)).map fun v =>
    ({ version := some s.version, salt := some s.salt, sealed := v } : LockState.Draft)
  have hfills : Fills LockState.Draft.entry {}
      [(.text "version", .unsigned s.version.toUInt64), (.text "salt", LockState.bytesValue s.salt),
        (.text "sealed", LockState.bytesValue s.sealed)]
      ⟨some s.version, some s.salt, some s.sealed⟩ := by
    refine .field (by decide) hversion ?_
    refine .field (by decide) hsaltEntry ?_
    exact .field (by decide) hsealedEntry (.done _)
  exact (reads_record (by simp) hfills).finish rfl

end TableVault.Cbor
