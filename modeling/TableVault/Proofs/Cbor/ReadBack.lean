import TableVault.Proofs.Cbor.Doubles
import TableVault.Proofs.Cbor.Strings
import TableVault.Cbor.Writer

namespace TableVault.Cbor

/-!
# What is read back of a value

Not every value is read back as it was written: a big integer tag over a short byte string is
read as a number, and what is nested too deep is not read at all.

* `Value.deepInduction` — induction on a value, with what is nested in it as lists;
* `Answers` — a reader takes certain bytes off any input and returns something, or fails on
  any input that they are in front of;
* `Value.head` and `Value.body` — the head that a value is written with, and what follows it;
* `Value.readBack` — what is read back of a value with a budget of levels, and
  `answers_valueFrom` — this is what is read.
-/

/-- **Induction on a value.** What is nested in an array or a map satisfies the claim already. -/
theorem Value.deepInduction {P : Value → Prop} (unsigned : ∀ n, P (.unsigned n))
    (negative : ∀ n, P (.negative n)) (float : ∀ d, P (.float d)) (text : ∀ s, P (.text s))
    (bytes : ∀ b, P (.bytes b)) (bool : ∀ b, P (.bool b)) (null : P .null)
    (array : ∀ items, (∀ v ∈ items, P v) → P (.array items))
    (map : ∀ entries, (∀ e ∈ entries, P e.1 ∧ P e.2) → P (.map entries))
    (tag : ∀ number content, P content → P (.tag number content)) (v : Value) : P v :=
  @Value.rec P (fun items => ∀ v ∈ items, P v) (fun entries => ∀ e ∈ entries, P e.1 ∧ P e.2)
    (fun e => P e.1 ∧ P e.2) unsigned negative float text bytes bool null array map tag
    (by simp) (fun _ _ hv hrest => List.forall_mem_cons.mpr ⟨hv, hrest⟩)
    (by simp) (fun _ _ he hrest => List.forall_mem_cons.mpr ⟨he, hrest⟩)
    (fun _ _ hk hv => ⟨hk, hv⟩) v

/-! ### Readers that answer -/

/-- On any input that `b` is in front of, the reader `x` takes `b` and returns what `r` returns,
    or fails as `r` fails. -/
def Answers {α : Type} (x : Reader α) (b : Bytes) (r : Except Fault α) : Prop :=
  ∀ rest, x (b ++ rest) = r.map fun a => (a, rest)

namespace Answers

variable {α β : Type} {x : Reader α} {b b₁ b₂ : Bytes} {r : Except Fault α}

/-- What is read is answered. -/
theorem of_reads {a : α} (h : Reads x b a) : Answers x b (.ok a) := h

/-- Readers one after the other answer one after the other. -/
theorem bind {f : α → Reader β} {g : α → Except Fault β} (hx : Answers x b₁ r)
    (hf : ∀ a, r = .ok a → Answers (f a) b₂ (g a)) : Answers (x >>= f) (b₁ ++ b₂) (r >>= g) := by
  intro rest
  have hfirst := hx (b₂ ++ rest)
  show StateT.bind x f _ = _
  cases r with
  | error e => simp only [StateT.bind, List.append_assoc, hfirst, Except.map, Bind.bind, Except.bind]
  | ok a =>
    simp only [StateT.bind, List.append_assoc, hfirst, Except.map, Bind.bind, Except.bind]
    exact hf a rfl rest

/-- After what has been read comes the answer of the reader that goes on. -/
theorem after {f : α → Reader β} {a : α} {s : Except Fault β} (hx : Reads x b₁ a)
    (hf : Answers (f a) b₂ s) : Answers (x >>= f) (b₁ ++ b₂) s := by
  have hread : Answers x b₁ (.ok a) := of_reads hx
  refine hread.bind (g := fun _ => s) ?_
  rintro _ ⟨⟩
  exact hf

/-- An answer is changed at the end. -/
theorem map (hx : Answers x b r) (g : α → β) :
    Answers (do return g (← x)) b (do return g (← r)) := by
  have h := hx.bind (f := fun a => Pure.pure (g a)) fun a _ => of_reads (Reads.pure (g a))
  rwa [List.append_nil] at h

/-- Items are answered one after another, up to the first that fails. -/
theorem many {item : Item α} {write : β → Bytes} {read : β → Except Fault α} (xs : List β)
    (hitem : ∀ x ∈ xs, Answers (Item.next item) (write x) (read x)) :
    Answers (Cbor.many (some xs.length) item) (xs.flatMap write) (xs.mapM read) := by
  -- The items come in reverse, behind those that have come already.
  have hcounted : ∀ acc : List α,
      Answers (counted (fun acc h => do return (← item h) :: acc) xs.length acc)
        (xs.flatMap write) (do return (← xs.mapM read).reverse ++ acc) := by
    induction xs with
    | nil => exact fun acc => of_reads (Reads.pure acc)
    | cons x xs ih =>
      intro acc
      have hfirst := (hitem x List.mem_cons_self).map (· :: acc)
      rw [List.length_cons, counted_succ, List.flatMap_cons, Item.next_bind]
      have hall := hfirst.bind fun a _ => ih (fun y hy => hitem y (List.mem_cons_of_mem x hy)) a
      simpa [List.mapM_cons] using hall
  have hturned : ((xs.mapM read >>= fun ys => pure (ys.reverse ++ [])) >>= fun ys =>
      pure ys.reverse) = xs.mapM read := by
    simp
  have h := (hcounted []).map List.reverse
  rwa [hturned] at h

end Answers

/-! ### Heads and bodies -/

namespace Value

/-- The head that a value is written with. -/
def head : Value → Head
  | .unsigned n => .unsigned n
  | .negative n => .negative n
  | .float d => .float d
  | .text s => .text (some (Utf8.encode s).length)
  | .bytes b => .bytes (some b.length)
  | .bool b => .simple (if b then 21 else 20)
  | .null => .simple 22
  | .array items => .array (some items.length)
  | .map entries => .map (some entries.length)
  | .tag number _ => .tag number

/-- What follows the head of a value. -/
def body : Value → Bytes
  | .text s => Utf8.encode s
  | .bytes b => b
  | .array items => encodeItems items
  | .map entries => encodeEntries entries
  | .tag _ content => content.encode
  | _ => []

/-- A written head has a byte at least. -/
theorem length_write_pos (kind n : Nat) : 0 < (Head.write kind n).length := by
  obtain ⟨detail, rest, -, hwrite⟩ := Head.write_eq_cons kind n
  rw [hwrite, List.length_cons]
  omega

/-- A value has a byte at least. -/
theorem length_encode_pos (v : Value) : 0 < v.encode.length := by
  cases v with
  | float d =>
    rw [encode, Head.writeFloat]
    split
    · simp
    · split <;> simp
  | bool b => simp [encode]
  | null => simp [encode]
  | _ =>
    simp only [encode, List.length_append]
    grind [length_write_pos]

/-- The entries of a map are written one after another. -/
theorem encodeEntries_eq (entries : List (Value × Value)) :
    encodeEntries entries = entries.flatMap fun e => e.1.encode ++ e.2.encode := by
  induction entries with
  | nil => rfl
  | cons e rest ih => rw [encodeEntries, ih, List.flatMap_cons]

/-- What is written in a list is no longer than the list. -/
theorem length_le_flatMap {α : Type} (write : α → Bytes) {x : α} {xs : List α} (h : x ∈ xs) :
    (write x).length ≤ (xs.flatMap write).length := by
  rw [List.flatMap_def]
  exact (List.sublist_flatten_of_mem (List.mem_map_of_mem h)).length_le

/-- A list of things that have a byte at least has no more of them than bytes. -/
theorem length_le_length_flatMap {α : Type} {write : α → Bytes} (hwrite : ∀ x, 0 < (write x).length)
    (xs : List α) : xs.length ≤ (xs.flatMap write).length := by
  induction xs with
  | nil => exact Nat.zero_le _
  | cons x xs ih =>
    have hx := hwrite x
    rw [List.flatMap_cons, List.length_cons, List.length_append]
    omega

/-- An array has no more items than bytes. -/
theorem length_items_le (items : List Value) : items.length ≤ (encodeItems items).length := by
  rw [encodeItems_eq]
  exact length_le_length_flatMap length_encode_pos items

/-- A map has no more entries than bytes. -/
theorem length_entries_le (entries : List (Value × Value)) :
    entries.length ≤ (encodeEntries entries).length := by
  rw [encodeEntries_eq]
  refine length_le_length_flatMap (fun e => ?_) entries
  have hkey := length_encode_pos e.1
  rw [List.length_append]
  omega

/-- A value is written as its head and its body, and the head is read back. -/
theorem reads_head (v : Value) (hsize : v.encode.length < 2 ^ 64) :
    ∃ b, v.encode = b ++ v.body ∧ Reads Head.read b v.head := by
  -- A length fits its head, since what it announces is at least that long.
  cases v with
  | unsigned n =>
    refine ⟨_, (List.append_nil _).symm, ?_⟩
    exact Head.reads_write (by omega) n.toNat_lt (by simp [Head.ofArgument, head])
  | negative n =>
    refine ⟨_, (List.append_nil _).symm, ?_⟩
    exact Head.reads_write (by omega) n.toNat_lt (by simp [Head.ofArgument, head])
  | float d => exact ⟨_, (List.append_nil _).symm, Head.reads_writeFloat d⟩
  | text s =>
    refine ⟨_, rfl, Head.reads_write (by omega) ?_ rfl⟩
    simp only [encode, List.length_append] at hsize
    omega
  | bytes b =>
    refine ⟨_, rfl, Head.reads_write (by omega) ?_ rfl⟩
    simp only [encode, List.length_append] at hsize
    omega
  | bool b =>
    refine ⟨_, (List.append_nil _).symm, ?_⟩
    cases b
    · exact Head.reads_simple (n := 20) (by omega)
    · exact Head.reads_simple (n := 21) (by omega)
  | null => exact ⟨_, (List.append_nil _).symm, Head.reads_simple (n := 22) (by omega)⟩
  | array items =>
    refine ⟨_, rfl, Head.reads_write (by omega) ?_ rfl⟩
    have hlength := length_items_le items
    simp only [encode, List.length_append] at hsize
    omega
  | map entries =>
    refine ⟨_, rfl, Head.reads_write (by omega) ?_ rfl⟩
    have hlength := length_entries_le entries
    simp only [encode, List.length_append] at hsize
    omega
  | tag number content =>
    refine ⟨_, rfl, ?_⟩
    exact Head.reads_write (by omega) number.toNat_lt (by simp [Head.ofArgument, head])

end Value

/-! ### What is read back -/

namespace Value

/-- The bytes that a tag makes a big integer of: a short byte string right under one of the two
    tags for them. -/
def bigMagnitude? (number : UInt64) : Value → Option Bytes
  | .bytes b =>
    if (number = bigPositive ∨ number = bigNegative) ∧ b.length ≤ magnitudeLimit then some b else none
  | _ => none

/-- The big integer with given bytes under a tag: an integer, if it fits 64 bits, or else the tag
    over the bytes without leading zeros. -/
def ofBig (number : UInt64) (b : Bytes) : Value :=
  if Bytes.ofBigEndian b < 2 ^ 64 then
    if number = bigNegative then .negative (UInt64.ofNat (Bytes.ofBigEndian b))
    else .unsigned (UInt64.ofNat (Bytes.ofBigEndian b))
  else .tag number (.bytes (b.dropWhile (· == 0)))

/-- One level of nesting, if there is one left. -/
def inside {α : Type} (budget : Nat) (x : Nat → Except Fault α) : Except Fault α :=
  match budget with
  | 0 => .error .tooDeep
  | budget + 1 => x budget

mutual

/-- What is read back of a value whose arrays, maps and tags may be nested `budget` deep. -/
def readBack : Value → (budget : Nat) → Except Fault Value
  | .array items, budget => inside budget fun budget => do
    return .array (← readBackItems items budget)
  | .map entries, budget => inside budget fun budget => do
    return .map (← readBackEntries entries budget)
  | .tag number content, budget =>
    match bigMagnitude? number content with
    | some b =>
      if number = bigNegative ∧ bigNegativeLimit < Bytes.ofBigEndian b then .error .mismatch
      else .ok (ofBig number b)
    | none => inside budget fun budget => do return .tag number (← readBack content budget)
  | v, _ => .ok v

/-- What is read back of the items of an array. -/
def readBackItems : List Value → (budget : Nat) → Except Fault (List Value)
  | [], _ => .ok []
  | v :: rest, budget => do return (← readBack v budget) :: (← readBackItems rest budget)

/-- What is read back of the entries of a map. -/
def readBackEntries : List (Value × Value) → (budget : Nat) → Except Fault (List (Value × Value))
  | [], _ => .ok []
  | (k, v) :: rest, budget => do
    return (← readBack k budget, ← readBack v budget) :: (← readBackEntries rest budget)

end

/-- The items of an array are read back one after another. -/
theorem readBackItems_eq (items : List Value) (budget : Nat) :
    readBackItems items budget = items.mapM fun v => readBack v budget := by
  induction items with
  | nil => rfl
  | cons v rest ih => rw [readBackItems, ih, List.mapM_cons]

/-- The entries of a map are read back one after another. -/
theorem readBackEntries_eq (entries : List (Value × Value)) (budget : Nat) :
    readBackEntries entries budget =
      entries.mapM fun e => do return (← readBack e.1 budget, ← readBack e.2 budget) := by
  induction entries with
  | nil => rfl
  | cons e rest ih =>
    rw [readBackEntries, ih, List.mapM_cons]
    simp only [bind_assoc, pure_bind]

/-- The magnitude of a big integer does not depend on leading zeros. -/
theorem ofBigEndian_dropWhile (b : Bytes) :
    Bytes.ofBigEndian (b.dropWhile (· == 0)) = Bytes.ofBigEndian b := by
  induction b with
  | nil => rfl
  | cons x b ih =>
    by_cases hx : x = 0
    · subst hx
      have hzero : Bytes.ofBigEndian (0 :: b) = Bytes.ofBigEndian b := rfl
      rw [List.dropWhile_cons_of_pos (by rfl), ih, hzero]
    · rw [List.dropWhile_cons_of_neg (by simpa using hx)]

/-- A big integer is read by its magnitude without leading zeros. -/
theorem ofMagnitude_eq {number : UInt64} (hnumber : number = bigPositive ∨ number = bigNegative)
    (b : Bytes) : ofMagnitude (number == bigNegative) (b.dropWhile (· == 0)) = ofBig number b := by
  have hstripped : (b.dropWhile (· == 0)).dropWhile (· == 0) = b.dropWhile (· == 0) :=
    List.dropWhile_idempotent _ _
  rw [ofMagnitude, ofBig, ofBigEndian_dropWhile, hstripped]
  rcases hnumber with rfl | rfl <;> rfl

end Value

/-! ### Reading values -/

section Values

variable {deeper : Reader (Item Value)} {budget : Nat}

/-- What is under a tag is read as it is, unless it makes a big integer. -/
theorem tagged_of_bigMagnitude?_eq_none {number : UInt64} {content : Value}
    (h : content.bigMagnitude? number = none) :
    tagged deeper number content.head = do return .tag number (← (← deeper) content.head) := by
  cases content with
  | bytes b =>
    have hlong : ¬((number = bigPositive ∨ number = bigNegative) ∧ b.length ≤ magnitudeLimit) := by
      simpa [Value.bigMagnitude?] using h
    rw [Value.head, tagged, if_neg hlong]
  | _ => rfl

/-- A big integer is read from its magnitude. -/
theorem answers_tagged_of_bigMagnitude? {number : UInt64} {content : Value} {b : Bytes}
    (h : content.bigMagnitude? number = some b) :
    Answers (tagged deeper number content.head) content.body
      (if number = bigNegative ∧ bigNegativeLimit < Bytes.ofBigEndian b then .error .mismatch
        else .ok (.ofBig number b)) := by
  obtain rfl : content = .bytes b := by
    cases content <;> simp_all [Value.bigMagnitude?]
  have hshort : (number = bigPositive ∨ number = bigNegative) ∧ b.length ≤ magnitudeLimit := by
    simpa [Value.bigMagnitude?] using h
  rw [Value.head, tagged, if_pos hshort, bigInteger, Value.body, ← List.append_nil b]
  refine Answers.after (by simpa using reads_magnitude hshort.2) ?_
  rw [Value.ofBigEndian_dropWhile, Value.ofMagnitude_eq hshort.1, List.append_nil]
  by_cases hover : number = bigNegative ∧ bigNegativeLimit < Bytes.ofBigEndian b
  · rw [if_pos hover, if_pos (by simpa using hover)]
    exact fun rest => rfl
  · rw [if_neg hover, if_neg (by simpa using hover)]
    exact Answers.of_reads (Reads.pure _)

end Values

/-- An item is read from the head and the body of a value. -/
theorem Answers.of_head {α : Type} {item : Item α} {v : Value} {r : Except Fault α}
    (hsize : v.encode.length < 2 ^ 64) (h : Answers (item v.head) v.body r) :
    Answers (Item.next item) v.encode r := by
  obtain ⟨b, hb, hhead⟩ := v.reads_head hsize
  rw [hb]
  exact Answers.after hhead h

/-- **Values are read back as far as the budget goes.** -/
theorem answers_valueFrom (v : Value) (hsize : v.encode.length < 2 ^ 64) (budget : Nat) :
    Answers (Item.next (valueFrom budget)) v.encode (v.readBack budget) := by
  refine Answers.of_head hsize ?_
  induction v using Value.deepInduction generalizing budget with
  | unsigned n => cases budget <;> exact fun rest => rfl
  | negative n => cases budget <;> exact fun rest => rfl
  | float d => cases budget <;> exact fun rest => rfl
  | null => cases budget <;> exact fun rest => rfl
  | bool b => cases budget <;> cases b <;> exact fun rest => rfl
  | text s =>
    have hread := (reads_textString s).map Value.text
    cases budget <;> exact hread
  | bytes b =>
    have hread := (reads_byteString b).map Value.bytes
    cases budget <;> exact hread
  | array items ih =>
    cases budget with
    | zero => exact fun rest => rfl
    | succ budget =>
      have hitem : ∀ v ∈ items, Answers (Item.next (valueFrom budget)) v.encode (v.readBack budget) := by
        intro v hv
        have hlength : v.encode.length ≤ (Value.encodeItems items).length := by
          rw [encodeItems_eq]
          exact Value.length_le_flatMap _ hv
        have hv64 : v.encode.length < 2 ^ 64 := by
          rw [Value.encode, List.length_append] at hsize
          omega
        exact Answers.of_head hv64 (ih v hv hv64 budget)
      have hitems := (Answers.many items hitem).map Value.array
      rw [← encodeItems_eq, ← Value.readBackItems_eq] at hitems
      exact hitems
  | map entries ih =>
    cases budget with
    | zero => exact fun rest => rfl
    | succ budget =>
      have hentry : ∀ e ∈ entries,
          Answers (Item.next fun h => do return (← valueFrom budget h, ← Item.next (valueFrom budget)))
            (e.1.encode ++ e.2.encode) (do return (← e.1.readBack budget, ← e.2.readBack budget)) := by
        intro e he
        have hlength : (e.1.encode ++ e.2.encode).length ≤ (Value.encodeEntries entries).length := by
          rw [Value.encodeEntries_eq]
          exact Value.length_le_flatMap (fun e : Value × Value => e.1.encode ++ e.2.encode) he
        rw [Value.encode, List.length_append] at hsize
        rw [List.length_append] at hlength
        obtain ⟨hkey, hvalue⟩ := ih e he
        have hkey' := Answers.of_head (by omega) (hkey (by omega) budget)
        have hvalue' := Answers.of_head (by omega) (hvalue (by omega) budget)
        rw [Item.next_bind]
        exact hkey'.bind fun k _ => hvalue'.map (k, ·)
      have hentries := (Answers.many entries hentry).map Value.map
      rw [← Value.encodeEntries_eq, ← Value.readBackEntries_eq] at hentries
      exact hentries
  | tag number content ih =>
    have hcontent : content.encode.length < 2 ^ 64 := by
      rw [Value.encode, List.length_append] at hsize
      omega
    -- The head of the content is looked at before it is known who reads on.
    have hnext : ∀ deeper : Reader (Item Value),
        Answers (tagged deeper number content.head) content.body
          ((Value.tag number content).readBack budget) →
        Answers (Item.next (tagged deeper number)) content.encode
          ((Value.tag number content).readBack budget) := fun deeper h => Answers.of_head hcontent h
    cases hbig : content.bigMagnitude? number with
    | some b =>
      rw [Value.readBack, hbig] at hnext ⊢
      cases budget <;> exact hnext _ (answers_tagged_of_bigMagnitude? hbig)
    | none =>
      rw [Value.readBack, hbig] at hnext ⊢
      cases budget with
      | zero =>
        refine hnext _ ?_
        rw [tagged_of_bigMagnitude?_eq_none hbig]
        exact fun rest => rfl
      | succ budget =>
        refine hnext _ ?_
        rw [tagged_of_bigMagnitude?_eq_none hbig]
        exact (ih hcontent budget).map (Value.tag number)

end TableVault.Cbor
