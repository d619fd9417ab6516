import Mathlib
import TableVault.Bytes.PlaceValue
import TableVault.Cbor.Shape

namespace TableVault.Cbor

/-!
# Reading what has been written

* `Reads x b a` — the reader `x` takes exactly the bytes `b` off any input that they are
  in front of, and returns `a`;
* `Reads.bind` — readers one after the other take their bytes one after the other;
* `Item.next_bind` — what follows an item, apart from the item and its head;
* `Head.Announces` — the bytes of a head with an argument, in any of its widths;
* `Head.reads_write` — a written head is read back;
* `Reads.many` — an array is read back if its items are;
* `reads_integerWithin` and `reads_byteList` — integers and lists of bytes;
* `Value.head?_encode` — no value begins with the byte that ends what has no length.
-/

/-- The reader `x` takes exactly `b` off the front of any input, and returns `a`. -/
def Reads {α : Type} (x : Reader α) (b : Bytes) (a : α) : Prop :=
  ∀ rest, x (b ++ rest) = .ok (a, rest)

namespace Reads

variable {α β : Type} {a : α} {b b₁ b₂ : Bytes} {c : β}

/-- A reader that returns at once takes nothing. -/
theorem pure (a : α) : Reads (Pure.pure a) [] a :=
  fun _ => rfl

/-- A pure computation takes nothing. -/
theorem lift {x : Except Fault α} (h : x = .ok a) : Reads (liftM x) [] a := by
  intro rest
  subst h
  rfl

/-- Readers one after the other take their bytes one after the other. -/
theorem bind {x : Reader α} {f : α → Reader β} (hx : Reads x b₁ a) (hf : Reads (f a) b₂ c) :
    Reads (x >>= f) (b₁ ++ b₂) c := by
  intro rest
  have hfirst := hx (b₂ ++ rest)
  show StateT.bind x f _ = _
  simp only [StateT.bind, List.append_assoc, hfirst, Bind.bind, Except.bind]
  exact hf rest

/-- The result of a reader is changed at the end. -/
theorem map {x : Reader α} (g : α → β) (hx : Reads x b a) :
    Reads (do return g (← x)) b (g a) := by
  have h := hx.bind (f := fun a => Pure.pure (g a)) (Reads.pure (g a))
  rwa [List.append_nil] at h

/-- Exactly as many bytes as asked for are taken. -/
theorem take (b : Bytes) : Reads (Reader.take b.length) b b :=
  Reader.take_append b

end Reads

/-- A whole encoded value is read if the reader of its shape takes it. -/
theorem fromCbor?_of_reads {s : Shape} {b : Bytes} {a : s.Carrier} (h : Reads s.read b a) :
    fromCbor? s b = .ok a := by
  have hrun : s.read.run b = .ok (a, []) := by
    have hall := h []
    rwa [List.append_nil] at hall
  rw [fromCbor?, hrun]

/-! ### Heads -/

namespace Head

/-- Below the seventh kind the form of an argument does not matter. -/
theorem ofArgument_detail {kind : Nat} (hk : kind < 7) (detail n : Nat) :
    ofArgument kind detail (some n) = ofArgument kind 0 (some n) := by
  interval_cases kind <;> rfl

/-- The parts of the first byte of a head. -/
theorem toNat_initial {kind detail : Nat} (hk : kind < 8) (hd : detail < 32) :
    (initial kind detail).toNat = kind * 32 + detail := by
  rw [initial, UInt8.toNat_ofNat']
  omega

/-- A first byte and the argument that it announces make a head. -/
theorem reads_initial {kind detail n : Nat} {b : Bytes} {h : Head} (hk : kind < 8)
    (hd : detail < 32) (harg : Reads (argument detail) b (some n))
    (hh : ofArgument kind detail (some n) = .ok h) : Reads read (initial kind detail :: b) h := by
  -- The reader divides the first byte into the kind and the detail that it was made of.
  have hinitial : (initial kind detail).toNat = kind * 32 + detail := toNat_initial hk hd
  have hdetail : (initial kind detail).toNat % 32 = detail := by omega
  have hkind : (initial kind detail).toNat / 32 = kind := by omega
  have hbyte : Reads Reader.byte [initial kind detail] (initial kind detail) := fun rest => rfl
  refine hbyte.bind ?_
  rw [hdetail, hkind, ← List.append_nil b]
  exact harg.bind (Reads.lift hh)

/-- An argument in several bytes. -/
theorem reads_argument {width n : Nat} (i : Nat) (hi : i < 4) (hwidth : width = 1 <<< i)
    (hn : n < 256 ^ width) : Reads (argument (24 + i)) (Bytes.bigEndian width n) (some n) := by
  unfold argument
  rw [if_neg (by omega), if_pos (by omega), Nat.add_sub_cancel_left, ← hwidth]
  have htake := Reads.take (Bytes.bigEndian width n)
  rw [Bytes.length_bigEndian] at htake
  have h := htake.map fun b => some (Bytes.ofBigEndian b)
  rwa [Bytes.ofBigEndian_bigEndian hn] at h

/-- The bytes behind the first one that spell an argument, for five bits of detail. -/
inductive Argument : (detail n : Nat) → Bytes → Prop
  | inside {n : Nat} (hn : n < 24) : Argument n n []
  | behind {n : Nat} (i : Nat) (hi : i < 4) (hn : n < 256 ^ (1 <<< i)) :
    Argument (24 + i) n (Bytes.bigEndian (1 <<< i) n)

/-- The bytes of a head of kind `kind` with argument `n`, which need not be in as few bytes as it
    could be. -/
inductive Announces (kind n : Nat) : Bytes → Prop
  | intro {detail : Nat} {argument : Bytes} (h : Argument detail n argument) :
    Announces kind n (initial kind detail :: argument)

/-- An argument fits 64 bits, and its detail five. -/
theorem Argument.lt {detail n : Nat} {b : Bytes} (h : Argument detail n b) :
    detail < 28 ∧ n < 2 ^ 64 := by
  cases h with
  | inside hn => omega
  | behind i hi hn =>
    have hwidth : 1 <<< i ≤ 8 := by
      interval_cases i <;> decide
    have hle : 256 ^ (1 <<< i) ≤ 256 ^ 8 := Nat.pow_le_pow_right (by decide) hwidth
    omega

/-- A spelled argument is read. -/
theorem Argument.reads {detail n : Nat} {b : Bytes} (h : Argument detail n b) :
    Reads (argument detail) b (some n) := by
  cases h with
  | inside hn =>
    rw [Head.argument, if_pos hn]
    exact Reads.pure _
  | behind i hi hn => exact reads_argument i hi rfl hn

/-- What a head announces fits 64 bits. -/
theorem Announces.lt {kind n : Nat} {b : Bytes} (h : Announces kind n b) : n < 2 ^ 64 := by
  obtain ⟨h⟩ := h
  exact h.lt.2

/-- A head has a first byte. -/
theorem Announces.ne_nil {kind n : Nat} {b : Bytes} (h : Announces kind n b) : b ≠ [] := by
  obtain ⟨h⟩ := h
  simp

/-- A head with an argument is read in any of its widths. -/
theorem reads_announced {kind n : Nat} {b : Bytes} {head : Head} (hkind : kind < 7)
    (hhead : ofArgument kind 0 (some n) = .ok head) (h : Announces kind n b) : Reads read b head := by
  obtain ⟨harg⟩ := h
  have hdetail := harg.lt.1
  refine reads_initial (by omega) (by omega) harg.reads ?_
  exact (ofArgument_detail hkind _ n).trans hhead

/-- A written head announces its argument, in as few bytes as it can. -/
theorem announces_write {n : Nat} (kind : Nat) (hn : n < 2 ^ 64) :
    Announces kind n (write kind n) := by
  unfold write
  split
  · next hsmall => exact .intro (.inside hsmall)
  split
  · exact .intro (.behind 0 (by omega) (by omega))
  split
  · exact .intro (.behind 1 (by omega) (by omega))
  split
  · exact .intro (.behind 2 (by omega) (by omega))
  · exact .intro (.behind 3 (by omega) (by omega))

/-- **A written head is read back.** -/
theorem reads_write {kind n : Nat} {h : Head} (hk : kind < 7) (hn : n < 2 ^ 64)
    (hh : ofArgument kind 0 (some n) = .ok h) : Reads read (write kind n) h :=
  reads_announced hk hh (announces_write kind hn)

end Head

/-- An item is read from its head on. -/
theorem Reads.next {α : Type} {item : Item α} {h : Head} {b₁ b₂ : Bytes} {a : α}
    (hhead : Reads Head.read b₁ h) (hitem : Reads (item h) b₂ a) :
    Reads (Item.next item) (b₁ ++ b₂) a :=
  hhead.bind hitem

/-- What follows an item follows the item with its head. -/
theorem Item.next_bind {α β : Type} (item : Item α) (f : α → Reader β) :
    (Item.next fun h => item h >>= f) = Item.next item >>= f := by
  simp only [Item.next, bind_assoc]

/-- The result of an item is changed at the end. -/
theorem Reads.next_map {α β : Type} {item : Item α} {b : Bytes} {a : α} (g : α → β)
    (h : Reads (Item.next item) b a) :
    Reads (Item.next fun h => do return g (← item h)) b (g a) := by
  rw [Item.next_bind]
  exact h.map g

/-- Nothing is skipped in front of a head that is no tag. -/
theorem reads_untag {h : Head} (hh : ∀ t, h ≠ .tag t) : Reads (untag h) [] h := by
  intro rest
  cases h <;> first | rfl | exact absurd rfl (hh _)

/-- A head that is no tag is looked at as it is. -/
theorem Reads.untagged {α : Type} {h : Head} (hh : ∀ t, h ≠ .tag t) {f : Head → Reader α}
    {b : Bytes} {a : α} (hf : Reads (f h) b a) : Reads (untag h >>= f) b a :=
  (reads_untag hh).bind hf

/-! ### Sequences -/

/-- The first of several items is read before the others. -/
theorem counted_succ {ρ : Type} (step : ρ → Item ρ) (n : Nat) (r : ρ) :
    counted step (n + 1) r = Item.next (step r) >>= counted step n := by
  simp only [counted, Item.next, bind_assoc]

/-- A state is carried through the items that are read one after another. -/
theorem Reads.counted {ρ β : Type} {step : ρ → Item ρ} {write : β → Bytes} {next : ρ → β → ρ}
    (xs : List β) (hstep : ∀ x ∈ xs, ∀ r, Reads (Item.next (step r)) (write x) (next r x)) (r : ρ) :
    Reads (counted step xs.length r) (xs.flatMap write) (xs.foldl next r) := by
  induction xs generalizing r with
  | nil => exact Reads.pure r
  | cons x xs ih =>
    rw [List.length_cons, counted_succ, List.flatMap_cons, List.foldl_cons]
    have hrest := ih (fun y hy => hstep y (List.mem_cons_of_mem x hy)) (next r x)
    exact (hstep x List.mem_cons_self r).bind hrest

/-- **Items are read one after another.** -/
theorem Reads.many {α : Type} {item : Item α} {write : α → Bytes} (xs : List α)
    (hitem : ∀ x ∈ xs, Reads (Item.next item) (write x) x) :
    Reads (many (some xs.length) item) (xs.flatMap write) xs := by
  -- The items come in reverse, and are turned around at the end.
  have hstep : ∀ x ∈ xs, ∀ acc : List α,
      Reads (Item.next fun h => do return (← item h) :: acc) (write x) (x :: acc) :=
    fun x hx acc => (hitem x hx).next_map (· :: acc)
  have h := (Reads.counted xs hstep []).map List.reverse
  rwa [List.foldl_flip_cons_eq_append', List.append_nil, List.reverse_reverse] at h

/-! ### Integers and lists of bytes -/

/-- An integer that is written is read back. -/
theorem reads_integerValue {i : Int} {v : Value} (hv : v.int? = some i) :
    Reads (Item.next integer) v.encode i := by
  cases v with
  | unsigned n =>
    cases hv
    have hhead : Reads Head.read (Head.write 0 n.toNat) (.unsigned n) :=
      Head.reads_write (by omega) n.toNat_lt (by simp [Head.ofArgument])
    have hitem : Reads (integer (.unsigned n)) [] (Int.ofNat n.toNat) := fun rest => rfl
    have h := Reads.next hhead hitem
    rwa [List.append_nil] at h
  | negative n =>
    cases hv
    have hhead : Reads Head.read (Head.write 1 n.toNat) (.negative n) :=
      Head.reads_write (by omega) n.toNat_lt (by simp [Head.ofArgument])
    have hitem : Reads (integer (.negative n)) [] (Int.negSucc n.toNat) := fun rest => rfl
    have h := Reads.next hhead hitem
    rwa [List.append_nil] at h
  | _ => cases hv

section Bounds

variable {b : Bytes} {i lo hi : Int}

/-- An integer within the bounds is read, however it is spelled. -/
theorem Reads.integerWithin (h : Reads (Item.next integer) b i) (hlo : lo ≤ i) (hhi : i ≤ hi) :
    Reads (Item.next (integerWithin lo hi)) b i := by
  show Reads (Item.next fun h => integer h >>= fun i =>
    if lo ≤ i ∧ i ≤ hi then Pure.pure i else throw .mismatch) b i
  rw [Item.next_bind, ← List.append_nil b]
  refine h.bind ?_
  rw [if_pos ⟨hlo, hhi⟩]
  exact Reads.pure i

/-- An integer of 8 bits is read, however it is spelled. -/
theorem Reads.uint8 {x : UInt8} (h : Reads (Item.next integer) b x.toNat) :
    Reads (Item.next uint8) b x := by
  have hx : x.toNat < 256 := x.toNat_lt
  have hint : Reads (Item.next (Cbor.integerWithin 0 0xff)) b (x.toNat : Int) :=
    h.integerWithin (by omega) (by omega)
  have hread := hint.next_map fun i => UInt8.ofNat i.toNat
  rwa [Int.toNat_natCast, UInt8.ofNat_toNat] at hread

/-- An integer of 32 bits is read, however it is spelled. -/
theorem Reads.uint32 {x : UInt32} (h : Reads (Item.next integer) b x.toNat) :
    Reads (Item.next uint32) b x := by
  have hx : x.toNat < 4294967296 := x.toNat_lt
  have hint : Reads (Item.next (Cbor.integerWithin 0 0xffffffff)) b (x.toNat : Int) :=
    h.integerWithin (by omega) (by omega)
  have hread := hint.next_map fun i => UInt32.ofNat i.toNat
  rwa [Int.toNat_natCast, UInt32.ofNat_toNat] at hread

end Bounds

/-- An integer within the bounds is read back. -/
theorem reads_integerWithin {lo hi i : Int} {v : Value} (hv : v.int? = some i) (hlo : lo ≤ i)
    (hhi : i ≤ hi) : Reads (Item.next (integerWithin lo hi)) v.encode i :=
  (reads_integerValue hv).integerWithin hlo hhi

/-- A byte is read back. -/
theorem reads_uint8 (x : UInt8) : Reads (Item.next uint8) (Value.unsigned x.toUInt64).encode x :=
  (reads_integerValue rfl).uint8

/-- An integer of 32 bits is read back. -/
theorem reads_uint32 (x : UInt32) :
    Reads (Item.next uint32) (Value.unsigned x.toUInt64).encode x :=
  (reads_integerValue rfl).uint32

/-- The items of an array are written one after another. -/
theorem encodeItems_eq (items : List Value) : Value.encodeItems items = items.flatMap Value.encode := by
  induction items with
  | nil => rfl
  | cons v rest ih => rw [Value.encodeItems, ih, List.flatMap_cons]

/-- A list is read back from an array if its items are. -/
theorem reads_list {α : Type} {item : Item α} {ofByte : UInt8 → Except Fault α} {write : α → Value}
    {xs : List α} (hlength : xs.length < 2 ^ 64)
    (hitem : ∀ x ∈ xs, Reads (Item.next item) (write x).encode x) :
    Reads (Item.next (list item ofByte)) (Value.array (xs.map write)).encode xs := by
  have hbytes : (Value.array (xs.map write)).encode =
      Head.write 4 xs.length ++ xs.flatMap fun x => (write x).encode := by
    rw [Value.encode, List.length_map, encodeItems_eq, List.flatMap_map]
  rw [hbytes]
  refine Reads.next (Head.reads_write (h := .array (some xs.length)) (by omega) hlength rfl) ?_
  exact Reads.untagged (by simp) (Reads.many xs hitem)

/-- A list of bytes is read back. -/
theorem reads_byteList {b : Bytes} (h : b.length < 2 ^ 64) :
    Reads (Item.next byteList) (LockState.bytesValue b).encode b :=
  reads_list h fun x _ => reads_uint8 x

/-! ### First bytes -/

namespace Head

/-- A written head has a detail that announces an argument. -/
theorem write_eq_cons (kind n : Nat) :
    ∃ detail rest, detail < 28 ∧ write kind n = initial kind detail :: rest := by
  unfold write
  split
  · next hsmall => exact ⟨n, [], by omega, rfl⟩
  · split
    · exact ⟨24, _, by omega, rfl⟩
    · split
      · exact ⟨25, _, by omega, rfl⟩
      · split
        · exact ⟨26, _, by omega, rfl⟩
        · exact ⟨27, _, by omega, rfl⟩

/-- The first byte of a head with such a detail is no break. -/
theorem initial_ne_break {kind detail : Nat} (hk : kind < 8) (hd : detail < 28) :
    initial kind detail ≠ 0xff := by
  intro h
  have hinitial := toNat_initial hk (show detail < 32 by omega)
  rw [h, show (0xff : UInt8).toNat = 255 from rfl] at hinitial
  omega

end Head

/-- **No written value begins with a break.** -/
theorem Value.head?_encode (v : Value) : v.encode.head? ≠ some 0xff := by
  -- What stands behind the first byte does not matter.
  have hcons : ∀ {kind detail : Nat} (rest : Bytes), kind < 8 → detail < 28 →
      (Head.initial kind detail :: rest).head? ≠ some 0xff := by
    intro kind detail rest hk hd h
    exact Head.initial_ne_break hk hd (Option.some.inj h)
  have hwrite : ∀ {kind : Nat} (n : Nat) (rest : Bytes), kind < 8 →
      (Head.write kind n ++ rest).head? ≠ some 0xff := by
    intro kind n rest hk
    obtain ⟨detail, more, hd, heq⟩ := Head.write_eq_cons kind n
    rw [heq]
    exact hcons _ hk hd
  cases v with
  | unsigned n => simpa [encode] using hwrite n.toNat [] (show 0 < 8 by omega)
  | negative n => simpa [encode] using hwrite n.toNat [] (show 1 < 8 by omega)
  | float d =>
    rw [encode, Head.writeFloat]
    split
    · exact hcons _ (by omega) (by omega)
    · split
      · exact hcons _ (by omega) (by omega)
      · exact hcons _ (by omega) (by omega)
  | text s => exact hwrite _ _ (by omega)
  | bytes b => exact hwrite _ _ (by omega)
  | bool b => cases b <;> decide
  | null => decide
  | array items => exact hwrite _ _ (by omega)
  | map entries => exact hwrite _ _ (by omega)
  | tag number content => exact hwrite _ _ (by omega)

end TableVault.Cbor
