import TableVault.Cbor.Shape
import TableVault.Proofs.Cbor.ReadBack

namespace TableVault.Cbor

/-!
# Values survive

A value that is not nested too deep comes back as it was written, up to its big integers: those
that fit 64 bits come back as plain integers, and the others without their leading zeros.

* `Value.nesting` — how deep arrays, maps and tags are nested in a value;
* `Value.Occurs` — one value is a node of another;
* `Value.BigInteger` and `Value.Oversized` — the nodes that are taken for big integers, and
  those among them that cannot be read;
* `Value.settled` — a value with all its big integers settled;
* `readBack_eq` — within its budget of levels a value is read back settled, unless it has an
  oversized node;
* `values_survive` — so is it from its whole encoding.
-/

/-! ### Nodes of a value -/

namespace Value

mutual

/-- How deep arrays, maps and tags are nested in a value. -/
def nesting : Value → Nat
  | .array items => nestingItems items + 1
  | .map entries => nestingEntries entries + 1
  | .tag _ content => nesting content + 1
  | _ => 0

/-- How deep they are nested in the items of an array. -/
def nestingItems : List Value → Nat
  | [] => 0
  | v :: rest => max (nesting v) (nestingItems rest)

/-- How deep they are nested in the entries of a map. -/
def nestingEntries : List (Value × Value) → Nat
  | [] => 0
  | (k, v) :: rest => max (max (nesting k) (nesting v)) (nestingEntries rest)

end

/-- An item is nested at most as deep as all the items together. -/
theorem nesting_le_nestingItems {v : Value} {items : List Value} (h : v ∈ items) :
    v.nesting ≤ nestingItems items := by
  induction items with
  | nil => cases h
  | cons u rest ih =>
    rw [nestingItems]
    rcases List.mem_cons.mp h with rfl | hrest
    · exact Nat.le_max_left _ _
    · exact (ih hrest).trans (Nat.le_max_right _ _)

/-- The two sides of an entry are nested at most as deep as all the entries together. -/
theorem nesting_le_nestingEntries {e : Value × Value} {entries : List (Value × Value)}
    (h : e ∈ entries) :
    e.1.nesting ≤ nestingEntries entries ∧ e.2.nesting ≤ nestingEntries entries := by
  induction entries with
  | nil => cases h
  | cons f rest ih =>
    rw [nestingEntries]
    rcases List.mem_cons.mp h with rfl | hrest
    · omega
    · have hle := ih hrest
      omega

/-- The first value is a node of the second: the value itself, or a node of an item, of the key
    or the value of an entry, or of what is tagged. -/
inductive Occurs (u : Value) : Value → Prop
  | here : Occurs u u
  | item {v : Value} {items : List Value} (mem : v ∈ items) (inside : Occurs u v) :
      Occurs u (.array items)
  | key {e : Value × Value} {entries : List (Value × Value)} (mem : e ∈ entries)
      (inside : Occurs u e.1) : Occurs u (.map entries)
  | value {e : Value × Value} {entries : List (Value × Value)} (mem : e ∈ entries)
      (inside : Occurs u e.2) : Occurs u (.map entries)
  | content {number : UInt64} {v : Value} (inside : Occurs u v) : Occurs u (.tag number v)

/-- A big integer: one of the two tags right over a byte string of at most 16 bytes. -/
def BigInteger (v : Value) : Prop :=
  ∃ number b, v = .tag number (.bytes b) ∧ (number = bigPositive ∨ number = bigNegative) ∧
    b.length ≤ magnitudeLimit

/-- A negative big integer whose magnitude is too large to be read. -/
def Oversized (v : Value) : Prop :=
  ∃ b, v = .tag bigNegative (.bytes b) ∧ b.length ≤ magnitudeLimit ∧
    2 ^ 127 - 1 < Bytes.ofBigEndian b

/-- Some node of a value is oversized. -/
def HasOversized (v : Value) : Prop :=
  ∃ u : Value, u.Occurs v ∧ u.Oversized

/-! ### Settled values -/

mutual

/-- A value with all its big integers settled. -/
def settled : Value → Value
  | .array items => .array (settledItems items)
  | .map entries => .map (settledEntries entries)
  | .tag number content =>
    match bigMagnitude? number content with
    | some b => ofBig number b
    | none => .tag number (settled content)
  | v => v

/-- The items of an array with their big integers settled. -/
def settledItems : List Value → List Value
  | [] => []
  | v :: rest => settled v :: settledItems rest

/-- The entries of a map with their big integers settled. -/
def settledEntries : List (Value × Value) → List (Value × Value)
  | [] => []
  | (k, v) :: rest => (settled k, settled v) :: settledEntries rest

end

/-- The items of an array are settled each by itself. -/
theorem settledItems_eq (items : List Value) : settledItems items = items.map settled := by
  induction items with
  | nil => rfl
  | cons v rest ih => rw [settledItems, ih, List.map_cons]

/-- The entries of a map are settled each by itself. -/
theorem settledEntries_eq (entries : List (Value × Value)) :
    settledEntries entries = entries.map fun e => (e.1.settled, e.2.settled) := by
  induction entries with
  | nil => rfl
  | cons e rest ih => rw [settledEntries, ih, List.map_cons]

/-- A tag makes a big integer exactly of a short byte string under one of the two tags. -/
theorem bigMagnitude?_eq_some_iff {number : UInt64} {content : Value} {b : Bytes} :
    content.bigMagnitude? number = some b ↔ content = .bytes b ∧
      (number = bigPositive ∨ number = bigNegative) ∧ b.length ≤ magnitudeLimit := by
  cases content <;> grind [bigMagnitude?]

/-- A value without big integers is settled already. -/
theorem settled_eq_self {v : Value} (h : ∀ u : Value, u.Occurs v → ¬u.BigInteger) :
    v.settled = v := by
  induction v using deepInduction with
  | array items ih =>
    have hitems : ∀ v ∈ items, v.settled = v := by
      intro v hv
      exact ih v hv fun u hu => h u (.item hv hu)
    rw [settled, settledItems_eq, List.map_congr_left hitems, List.map_id']
  | map entries ih =>
    have hentries : ∀ e ∈ entries, (e.1.settled, e.2.settled) = e := by
      intro e he
      have hkey := (ih e he).1 fun u hu => h u (.key he hu)
      have hvalue := (ih e he).2 fun u hu => h u (.value he hu)
      rw [hkey, hvalue]
    rw [settled, settledEntries_eq, List.map_congr_left hentries, List.map_id']
  | tag number content ih =>
    -- Otherwise the tag itself would be a big integer.
    have hplain : content.bigMagnitude? number = none := by
      by_contra hbig
      obtain ⟨b, hb⟩ := Option.ne_none_iff_exists'.mp hbig
      obtain ⟨rfl, hnumber, hshort⟩ := bigMagnitude?_eq_some_iff.mp hb
      exact h _ .here ⟨number, b, rfl, hnumber, hshort⟩
    rw [settled, hplain, ih fun u hu => h u (.content hu)]
  | _ => rfl

/-! ### Where oversized nodes are -/

/-- An array has an oversized node exactly if one of its items has. -/
theorem hasOversized_array {items : List Value} :
    (Value.array items).HasOversized ↔ ∃ v ∈ items, v.HasOversized := by
  constructor
  · rintro ⟨u, hu, hover⟩
    cases hu with
    | here =>
      obtain ⟨b, hb, -⟩ := hover
      cases hb
    | item hv hu => exact ⟨_, hv, u, hu, hover⟩
  · rintro ⟨v, hv, u, hu, hover⟩
    exact ⟨u, .item hv hu, hover⟩

/-- A map has an oversized node exactly if one side of one of its entries has. -/
theorem hasOversized_map {entries : List (Value × Value)} :
    (Value.map entries).HasOversized ↔
      ∃ e ∈ entries, e.1.HasOversized ∨ e.2.HasOversized := by
  constructor
  · rintro ⟨u, hu, hover⟩
    cases hu with
    | here =>
      obtain ⟨b, hb, -⟩ := hover
      cases hb
    | key he hu => exact ⟨_, he, .inl ⟨u, hu, hover⟩⟩
    | value he hu => exact ⟨_, he, .inr ⟨u, hu, hover⟩⟩
  · rintro ⟨e, he, ⟨u, hu, hover⟩ | ⟨u, hu, hover⟩⟩
    · exact ⟨u, .key he hu, hover⟩
    · exact ⟨u, .value he hu, hover⟩

/-- A big integer has an oversized node exactly if it is oversized itself. -/
theorem hasOversized_big {number : UInt64} {content : Value} {b : Bytes}
    (h : content.bigMagnitude? number = some b) :
    (Value.tag number content).HasOversized ↔
      number = bigNegative ∧ bigNegativeLimit < Bytes.ofBigEndian b := by
  obtain ⟨rfl, hnumber, hshort⟩ := bigMagnitude?_eq_some_iff.mp h
  constructor
  · rintro ⟨u, hu, a, rfl, hlength, hlarge⟩
    cases hu with
    | here => exact ⟨rfl, hlarge⟩
    | content hu => cases hu
  · rintro ⟨rfl, hlarge⟩
    exact ⟨_, .here, b, rfl, hshort, hlarge⟩

/-- Any other tag has an oversized node exactly if what is tagged has. -/
theorem hasOversized_tag {number : UInt64} {content : Value}
    (h : content.bigMagnitude? number = none) :
    (Value.tag number content).HasOversized ↔ content.HasOversized := by
  constructor
  · rintro ⟨u, hu, hover⟩
    cases hu with
    | here =>
      obtain ⟨b, hb, hshort, -⟩ := hover
      cases hb
      rw [bigMagnitude?_eq_some_iff.mpr ⟨rfl, .inr rfl, hshort⟩] at h
      cases h
    | content hu => exact ⟨u, hu, hover⟩
  · rintro ⟨u, hu, hover⟩
    exact ⟨u, .content hu, hover⟩

/-! ### Reading back -/

/-- Things that are done one after another and fail in one way fail together exactly if one of
    them fails. -/
theorem mapM_eq_ite {α β : Type} {f : α → Except Fault β} {g : α → β} {bad : α → Prop}
    [DecidablePred bad] {e : Fault} {xs : List α} (h : ∀ x ∈ xs, f x = if bad x then .error e else .ok (g x)) :
    xs.mapM f = if ∃ x ∈ xs, bad x then .error e else .ok (xs.map g) := by
  induction xs with
  | nil => simp; rfl
  | cons x xs ih =>
    have hx := h x List.mem_cons_self
    have hxs := ih fun y hy => h y (List.mem_cons_of_mem x hy)
    rw [List.mapM_cons, hx, hxs]
    by_cases hbad : bad x
    · have hall : ∃ z ∈ x :: xs, bad z := ⟨x, List.mem_cons_self, hbad⟩
      rw [if_pos hbad, if_pos hall]
      rfl
    · rw [if_neg hbad]
      by_cases hrest : ∃ y ∈ xs, bad y
      · obtain ⟨y, hy, hyb⟩ := hrest
        have hall : ∃ z ∈ x :: xs, bad z := ⟨y, List.mem_cons_of_mem x hy, hyb⟩
        rw [if_pos ⟨y, hy, hyb⟩, if_pos hall]
        rfl
      · rw [if_neg hrest, if_neg (by simpa [hbad] using hrest)]
        rfl

open Classical in
/-- **Within its budget a value is read back settled**, unless it has an oversized node. -/
theorem readBack_eq {v : Value} {budget : Nat} (h : v.nesting ≤ budget) :
    v.readBack budget = if v.HasOversized then .error .mismatch else .ok v.settled := by
  -- Each level takes one from the budget and from what is nested. A big integer takes none.
  induction v using deepInduction generalizing budget with
  | array items ih =>
    rw [nesting] at h
    obtain ⟨budget, rfl⟩ : ∃ n, budget = n + 1 := ⟨budget - 1, by omega⟩
    have hitem : ∀ v ∈ items,
        v.readBack budget = if v.HasOversized then .error .mismatch else .ok v.settled := by
      intro v hv
      have hnesting := nesting_le_nestingItems hv
      exact ih v hv (by omega)
    rw [readBack, inside, readBackItems_eq, mapM_eq_ite hitem, ← settledItems_eq]
    simp only [hasOversized_array, settled]
    split <;> rfl
  | map entries ih =>
    rw [nesting] at h
    obtain ⟨budget, rfl⟩ : ∃ n, budget = n + 1 := ⟨budget - 1, by omega⟩
    have hentry : ∀ e ∈ entries,
        (do return (← e.1.readBack budget, ← e.2.readBack budget) : Except Fault (Value × Value)) =
          if e.1.HasOversized ∨ e.2.HasOversized then .error .mismatch
          else .ok (e.1.settled, e.2.settled) := by
      intro e he
      have hnesting := nesting_le_nestingEntries he
      have hkey := (ih e he).1 (show e.1.nesting ≤ budget by omega)
      have hvalue := (ih e he).2 (show e.2.nesting ≤ budget by omega)
      rw [hkey, hvalue]
      by_cases hk : e.1.HasOversized <;> by_cases hv : e.2.HasOversized <;> simp [hk, hv] <;> rfl
    rw [readBack, inside, readBackEntries_eq, mapM_eq_ite hentry, ← settledEntries_eq]
    simp only [hasOversized_map, settled]
    split <;> rfl
  | tag number content ih =>
    cases hbig : content.bigMagnitude? number with
    | some b =>
      rw [readBack, settled, hbig]
      simp only [hasOversized_big hbig]
    | none =>
      rw [nesting] at h
      obtain ⟨budget, rfl⟩ : ∃ n, budget = n + 1 := ⟨budget - 1, by omega⟩
      rw [readBack, settled, hbig, inside, ih (by omega)]
      simp only [hasOversized_tag hbig]
      split <;> rfl
  | _ =>
    rw [if_neg]
    · rfl
    · rintro ⟨u, hu, b, rfl, -⟩
      cases hu

end Value

/-! ### Whole encodings -/

/-- What a reader answers to a whole encoding is what is read from it. -/
theorem fromCbor?_of_answers {s : Shape} {b : Bytes} {r : Except Fault s.Carrier}
    (h : Answers s.read b r) : fromCbor? s b = r := by
  have hread := h []
  rw [List.append_nil] at hread
  rw [fromCbor?, StateT.run, hread]
  cases r <;> rfl

/-- **Values survive their encoding.** A value whose arrays, maps and tags are nested at most 256
    deep, and whose encoding is no longer than a memory, comes back from its encoding with all
    its big integers settled, or is refused as a mismatch, and this exactly if it has an
    oversized node. A value without big integers comes back as it is. -/
theorem values_survive (v : Value) (hnesting : v.nesting ≤ 256)
    (hsize : (toCbor .value v).length < 2 ^ 64) :
    (¬v.HasOversized → fromCbor? .value (toCbor .value v) = .ok v.settled) ∧
    (v.HasOversized → fromCbor? .value (toCbor .value v) = .error .mismatch) ∧
    ((∀ u : Value, u.Occurs v → ¬u.BigInteger) →
      fromCbor? .value (toCbor .value v) = .ok v) := by
  classical
  have hread : fromCbor? .value (toCbor .value v) =
      if v.HasOversized then .error .mismatch else .ok v.settled := by
    have hanswers : Answers (Shape.read .value) (toCbor .value v) (v.readBack nestingLimit) :=
      answers_valueFrom v hsize nestingLimit
    rw [fromCbor?_of_answers hanswers]
    exact Value.readBack_eq hnesting
  refine ⟨fun hnone => ?_, fun hsome => ?_, fun hplain => ?_⟩
  · rw [hread, if_neg hnone]
  · rw [hread, if_pos hsome]
  · have hnone : ¬v.HasOversized := by
      rintro ⟨u, hu, b, rfl, hshort, -⟩
      exact hplain _ hu ⟨bigNegative, b, rfl, .inr rfl, hshort⟩
    rw [hread, if_neg hnone, Value.settled_eq_self hplain]

/-- A list with a big integer and a NaN comes back with the number 258 and with the same bits; one
    with a magnitude of 2^127 under tag 3 is refused. -/
theorem values_survive_big_integers :
    fromCbor? .value
        (toCbor .value (.array [.tag 2 (.bytes [0, 1, 2]), .float ⟨0x7ff8000000000001⟩])) =
      .ok (.array [.unsigned 258, .float ⟨0x7ff8000000000001⟩]) ∧
    fromCbor? .value
        (toCbor .value (.array [.null, .tag 3 (.bytes (0x80 :: .replicate 15 0))])) =
      .error .mismatch := by
  constructor
  · have hsettled : (Value.array [.tag 2 (.bytes [0, 1, 2]), .float ⟨0x7ff8000000000001⟩]).settled =
        .array [.unsigned 258, .float ⟨0x7ff8000000000001⟩] := by
      simp [Value.settled, Value.settledItems, Value.bigMagnitude?, Value.ofBig, bigPositive,
        bigNegative, magnitudeLimit, Bytes.ofBigEndian]
    rw [← hsettled]
    refine (values_survive _ (by decide) (by decide)).1 ?_
    rintro ⟨u, hu, hover⟩
    cases hu with
    | here => simp [Value.Oversized] at hover
    | item hmem hinside =>
      simp only [List.mem_cons, List.not_mem_nil, or_false] at hmem
      rcases hmem with rfl | rfl
      · cases hinside with
        | here => simp [Value.Oversized, bigNegative] at hover
        | content hinside =>
          cases hinside
          simp [Value.Oversized] at hover
      · cases hinside
        simp [Value.Oversized] at hover
  · refine (values_survive _ (by decide) (by decide)).2.1 ?_
    exact ⟨.tag 3 (.bytes (0x80 :: .replicate 15 0)), .item (by simp) .here, _, rfl, by decide,
      by decide⟩

end TableVault.Cbor
