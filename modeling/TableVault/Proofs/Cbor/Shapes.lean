import TableVault.Proofs.Cbor.LockRecord
import TableVault.Proofs.Cbor.ReadBack

namespace TableVault.Cbor

/-!
# Typed content is read back

Every shape but that of dynamic values takes exactly what its content is written as.

* `reads_text`, `reads_uint64`, `reads_int64`, `reads_optional` — what has no parts;
* `reads_counters` and `reads_profile` — numbers by name, and profiles;
* `Shape.reads` — all the typed shapes together.
-/

/-- A reader of the item behind a head takes what is left behind that head. -/
theorem Reads.of_next {α : Type} {item : Item α} {h : Head} {b₁ b₂ : Bytes} {a : α}
    (hhead : Reads Head.read b₁ h) (hall : Reads (Item.next item) (b₁ ++ b₂) a) :
    Reads (item h) b₂ a := by
  intro rest
  have hwhole := hall rest
  have hfirst := hhead (b₂ ++ rest)
  change StateT.bind Head.read item _ = _ at hwhole
  rw [StateT.bind, List.append_assoc, hfirst] at hwhole
  exact hwhole

/-! ### Content without parts -/

/-- A boolean is read back. -/
theorem reads_bool (b : Bool) : Reads (Item.next Shape.readBool) (Value.bool b).encode b := by
  rw [Value.encode, ← List.append_nil [Head.initial 7 _]]
  cases b with
  | false =>
    refine Reads.next (Head.reads_simple (n := 20) (by omega)) ?_
    exact Reads.untagged (by simp) (Reads.pure false)
  | true =>
    refine Reads.next (Head.reads_simple (n := 21) (by omega)) ?_
    exact Reads.untagged (by simp) (Reads.pure true)

/-- A float is read back with all its bits. -/
theorem reads_double (d : Double) : Reads (Item.next Shape.readDouble) (Value.float d).encode d := by
  rw [Value.encode, ← List.append_nil (Head.writeFloat d)]
  refine Reads.next (Head.reads_writeFloat d) ?_
  exact Reads.untagged (by simp) (Reads.pure d)

/-- A text is read back. -/
theorem reads_text {s : String} (hsize : (Value.text s).encode.length < 2 ^ 64) :
    Reads (Item.next text) (Value.text s).encode s := by
  obtain ⟨b, hb, hhead⟩ := (Value.text s).reads_head hsize
  rw [hb]
  exact Reads.next hhead (Reads.untagged (by simp [Value.head]) (reads_textString s))

/-- An integer of 64 bits is read back. -/
theorem reads_uint64 (x : UInt64) : Reads (Item.next uint64) (Value.unsigned x).encode x := by
  have hx : x.toNat < 18446744073709551616 := x.toNat_lt
  have hint : Reads (Item.next (integerWithin 0 0xffffffffffffffff)) (Value.unsigned x).encode
      (x.toNat : Int) := reads_integerWithin rfl (by omega) (by omega)
  have h := hint.next_map fun i => UInt64.ofNat i.toNat
  rwa [Int.toNat_natCast, UInt64.ofNat_toNat] at h

/-- A signed integer of 64 bits is written as a value that holds it. -/
theorem int?_ofInt64 (i : Int64) : (Value.ofInt64 i).int? = some i.toInt := by
  have hlo : -2 ^ 63 ≤ i.toInt := i.le_toInt
  have hhi : i.toInt < 2 ^ 63 := i.toInt_lt
  rw [Value.ofInt64]
  cases h : i.toInt with
  | ofNat n =>
    have hn : n < 2 ^ 64 := by
      rw [h, Int.ofNat_eq_natCast] at hhi
      omega
    rw [Value.int?, UInt64.toNat_ofNat', Nat.mod_eq_of_lt hn]
  | negSucc n =>
    have hn : n < 2 ^ 64 := by omega
    rw [Value.int?, UInt64.toNat_ofNat', Nat.mod_eq_of_lt hn]

/-- A signed integer of 64 bits is read back. -/
theorem reads_int64 (i : Int64) : Reads (Item.next int64) (Value.ofInt64 i).encode i := by
  have hlo : -2 ^ 63 ≤ i.toInt := i.le_toInt
  have hhi : i.toInt < 2 ^ 63 := i.toInt_lt
  have hint : Reads (Item.next (integerWithin (-0x8000000000000000) 0x7fffffffffffffff))
      (Value.ofInt64 i).encode i.toInt := reads_integerWithin (int?_ofInt64 i) (by omega) (by omega)
  have h := hint.next_map Int64.ofInt
  rwa [Int64.ofInt_toInt] at h

/-- An optional integer is read back, null as none. -/
theorem reads_optional (o : Option UInt32) :
    Reads (Item.next Shape.readOptional) (Shape.optionalUInt32.toValue o).encode o := by
  cases o with
  | none =>
    show Reads _ ([Head.initial 7 22] ++ []) _
    exact Reads.next (Head.reads_simple (n := 22) (by omega)) (Reads.pure none)
  | some n =>
    -- The head of the integer is looked at for a null first.
    have hhead : Reads Head.read (Value.unsigned n.toUInt64).encode (.unsigned n.toUInt64) :=
      Head.reads_write (by omega) n.toUInt64.toNat_lt (by simp [Head.ofArgument])
    show Reads _ (Value.unsigned n.toUInt64).encode _
    have hint := reads_uint32 n
    rw [← List.append_nil (Value.encode _)] at hint ⊢
    exact Reads.next hhead ((Reads.of_next hhead hint).map some)

/-! ### Numbers by name -/

/-- Numbers by name are put together again from their entries. -/
theorem foldl_insert_toList (m : Counters) :
    m.toList.foldl (fun m e => m.insert e.1 e.2) ∅ = m := by
  rw [← Std.ExtTreeMap.ofList_eq_foldl]
  refine Std.ExtTreeMap.ext_getElem? fun k => ?_
  cases hk : m[k]? with
  | none =>
    refine Std.ExtTreeMap.getElem?_ofList_of_contains_eq_false ?_
    rw [Std.ExtTreeMap.map_fst_toList_eq_keys]
    simpa using hk
  | some n =>
    have hmem : (k, n) ∈ m.toList := Std.ExtTreeMap.mem_toList_iff_getElem?_eq_some.mpr hk
    exact Std.ExtTreeMap.getElem?_ofList_of_mem Std.ReflCmp.compare_self
      Std.ExtTreeMap.distinct_keys_toList hmem

/-- Numbers by name are read back. -/
theorem reads_counters {m : Counters} (hsize : (toCbor .counters m).length < 2 ^ 64) :
    Reads (Item.next Shape.readCounters) (toCbor .counters m) m := by
  have hbody : Value.encodeEntries (m.toList.map fun e => (.text e.1, .unsigned e.2)) =
      m.toList.flatMap fun e => (Value.text e.1).encode ++ (Value.unsigned e.2).encode := by
    rw [Value.encodeEntries_eq, List.flatMap_map]
  obtain ⟨b, hb, hhead⟩ := (Shape.counters.toValue m).reads_head hsize
  have hentry : ∀ e ∈ m.toList, ∀ acc : Counters, Reads
      (Item.next fun h => do return acc.insert (← text h) (← Item.next uint64))
      ((Value.text e.1).encode ++ (Value.unsigned e.2).encode) (acc.insert e.1 e.2) := by
    intro e he acc
    -- A key is no longer than all the entries, and these no longer than the whole encoding.
    have hlength := Value.length_le_flatMap
      (fun e : String × UInt64 => (Value.text e.1).encode ++ (Value.unsigned e.2).encode) he
    have htext : (Value.text e.1).encode.length < 2 ^ 64 := by
      rw [toCbor, hb, List.length_append] at hsize
      rw [← hbody, List.length_append] at hlength
      change b.length + (Value.encodeEntries _).length < 2 ^ 64 at hsize
      omega
    rw [Item.next_bind]
    exact (reads_text htext).bind ((reads_uint64 e.2).map (acc.insert e.1))
  have hentries := Reads.counted m.toList hentry ∅
  rw [foldl_insert_toList, ← hbody] at hentries
  rw [toCbor, hb]
  refine Reads.next hhead (Reads.untagged (by simp [Value.head, Shape.toValue]) ?_)
  show Reads (forEach (some (m.toList.map _).length) _ _) _ _
  rw [List.length_map]
  exact hentries

/-! ### Lists and records -/

/-- An array has no more items than all its bytes. -/
theorem Value.length_le_array {α : Type} (write : α → Value) (xs : List α) :
    xs.length ≤ (Value.array (xs.map write)).encode.length := by
  have hitems := length_items_le (xs.map write)
  rw [List.length_map] at hitems
  rw [encode, List.length_append]
  omega

/-- A list of texts is read back. -/
theorem reads_textList {ts : List String} (hsize : (Value.array (ts.map .text)).encode.length < 2 ^ 64) :
    Reads (Item.next textList) (Value.array (ts.map .text)).encode ts := by
  refine reads_list ((Value.length_le_array .text ts).trans_lt hsize) fun t ht => reads_text ?_
  have hitem := Value.length_le_flatMap Value.encode (List.mem_map_of_mem (f := Value.text) ht)
  rw [← encodeItems_eq] at hitem
  rw [Value.encode, List.length_append] at hsize
  omega

/-- A profile is read back. -/
theorem reads_profile {p : Profile} (hsize : p.toValue.encode.length < 2 ^ 64) :
    Reads (Item.next Profile.read) p.toValue.encode p := by
  have hparts : (Value.text p.name).encode.length < 2 ^ 64 ∧
      (Value.array (p.tags.map .text)).encode.length < 2 ^ 64 := by
    simp only [Profile.toValue, Value.encode, Value.encodeEntries, List.length_append] at hsize ⊢
    omega
  have hname := (reads_once (reads_text hparts.1)).map fun v => ({ name := v } : Profile.Draft)
  have hage := (reads_once (reads_uint32 p.age)).map fun v =>
    ({ name := some p.name, age := v } : Profile.Draft)
  have htags := (reads_once (reads_textList hparts.2)).map fun v =>
    ({ name := some p.name, age := some p.age, tags := v } : Profile.Draft)
  have hfills : Fills Profile.Draft.entry {}
      [(.text "name", .text p.name), (.text "age", .unsigned p.age.toUInt64),
        (.text "tags", .array (p.tags.map .text))]
      ⟨some p.name, some p.age, some p.tags⟩ := by
    refine .field (by decide) hname ?_
    refine .field (by decide) hage ?_
    exact .field (by decide) htags (.done _)
  exact (reads_record (by simp) hfills).finish rfl

/-! ### All typed shapes -/

/-- **Typed content is read back.** -/
theorem Shape.reads {s : Shape} (hs : s ≠ .value) (a : s.Carrier)
    (hsize : (toCbor s a).length < 2 ^ 64) : Reads s.read (toCbor s a) a := by
  cases s with
  | value => exact absurd rfl hs
  | bool => exact reads_bool a
  | uint8 => exact reads_uint8 a
  | uint32 => exact reads_uint32 a
  | uint64 => exact reads_uint64 a
  | int64 => exact reads_int64 a
  | double => exact reads_double a
  | text => exact reads_text hsize
  | optionalUInt32 => exact reads_optional a
  | byteList => exact reads_byteList ((Value.length_le_array _ a).trans_lt hsize)
  | uint32List =>
    exact reads_list ((Value.length_le_array _ a).trans_lt hsize) fun n _ => reads_uint32 n
  | textList => exact reads_textList hsize
  | counters => exact reads_counters hsize
  | profile => exact reads_profile hsize
  | lockState =>
    have hparts : (LockState.bytesValue a.salt).encode.length < 2 ^ 64 ∧
        (LockState.bytesValue a.sealed).encode.length < 2 ^ 64 := by
      simp only [toCbor, Shape.toValue, LockState.toValue, Value.encode, Value.encodeEntries,
        List.length_append] at hsize
      omega
    have hsalt := (Value.length_le_array _ a.salt).trans_lt hparts.1
    have hsealed := (Value.length_le_array _ a.sealed).trans_lt hparts.2
    exact reads_lockState a hsalt hsealed

end TableVault.Cbor
