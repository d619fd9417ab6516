import TableVault.Proofs.Cbor.Spelling

namespace TableVault.Cbor

/-!
# Integers of every width

There are many ways to spell an integer, and four types that it can be read as. They differ in
nothing but their bounds.

* `SpellsInteger` — the bytes of an integer: a head of any width, a big integer over a byte string
  of either form, and tags in front of them;
* `reads_integer` and `takes_integer` — these bytes are read as integers, and no others;
* `integers_never_wrap` — every type reads the integer that is spelled if it is within its bounds,
  and refuses it otherwise.
-/

open Reader

/-! ### Magnitudes -/

/-- The pieces of a magnitude extend it like all of them together. -/
theorem foldlM_extendMagnitude (pieces : List Bytes) (m : Bytes) :
    pieces.foldlM extendMagnitude m = extendMagnitude m pieces.flatten := by
  induction pieces generalizing m with
  | nil => rfl
  | cons piece pieces ih =>
    rw [List.foldlM_cons, List.flatten_cons, extendMagnitude_append]
    simp only [ih]

/-- Nothing is read as a segment of a magnitude but the bytes that extend it. -/
theorem takes_magnitudeSegment (m : Bytes) {fuel n : Nat} (hfuel : n ≤ fuel) :
    Takes (magnitudeSegment fuel m n) fun piece m' =>
      piece.length = n ∧ extendMagnitude m piece = .ok m' := by
  induction fuel generalizing m n with
  | zero =>
    obtain rfl : n = 0 := by omega
    exact Takes.pure ⟨rfl, rfl⟩
  | succ fuel ih =>
    rw [magnitudeSegment]
    split
    · next hzero => exact Takes.pure ⟨hzero.symm, rfl⟩
    · next hpositive =>
      have hlimit : 0 < magnitudeLimit := by decide
      refine (Takes.take _).bind ?_
      rintro front _ ⟨rfl, hlength⟩
      have hextend : Takes (liftM (extendMagnitude m front) : Reader Bytes) fun used m₁ =>
          used = [] ∧ extendMagnitude m front = .ok m₁ := Takes.lift fun m₁ h => ⟨rfl, h⟩
      refine hextend.bind ?_
      rintro _ m₁ ⟨rfl, hfront⟩
      refine (ih m₁ (by omega)).mono ?_
      rintro later m' ⟨hlater, h⟩
      constructor
      · rw [List.nil_append, List.length_append]
        omega
      · rw [List.nil_append, extendMagnitude_append, hfront]
        exact h

/-- A magnitude is read from a byte string of either form. -/
theorem Pieces.reads_magnitude {length : Option Nat} {b : Bytes} {pieces : List Bytes}
    (h : Pieces length b pieces) {m : Bytes} (hm : extendMagnitude [] pieces.flatten = .ok m) :
    Reads (magnitude length) b m := by
  have hsegment : ∀ m piece m', extendMagnitude m piece = .ok m' →
      Reads ((fun m n => magnitudeSegment n m n) m piece.length) piece m' :=
    fun m piece m' hnext => reads_magnitudeSegment hnext le_rfl
  refine h.reads hsegment ?_
  rw [foldlM_extendMagnitude, hm]

/-- Nothing is read as a magnitude but a byte string. -/
theorem takes_magnitude (length : Option Nat) :
    Takes (magnitude length) fun b m =>
      ∃ pieces, Pieces length b pieces ∧ extendMagnitude [] pieces.flatten = .ok m := by
  refine (takes_segments (fun m n => takes_magnitudeSegment m le_rfl) length []).mono ?_
  rintro b m ⟨pieces, hb, hpieces⟩
  rw [foldlM_extendMagnitude] at hpieces
  exact ⟨pieces, hb, hpieces⟩

/-! ### Spelling -/

/-- The bytes of an integer. A magnitude has at most sixteen bytes behind its leading zeros. -/
inductive SpellsInteger : Bytes → Int → Prop
  | unsigned {n : Nat} {b : Bytes} (h : Head.Announces 0 n b) : SpellsInteger b n
  | negative {n : Nat} {b : Bytes} (h : Head.Announces 1 n b) : SpellsInteger b (-1 - n)
  | tagged {t : Nat} {head b : Bytes} {z : Int} (hhead : Head.Announces 6 t head)
    (htag : t ≠ 2 ∧ t ≠ 3) (h : SpellsInteger b z) : SpellsInteger (head ++ b) z
  | positiveBig {head b m : Bytes} (hhead : Head.Announces 6 2 head) (h : SpellsBytes b m)
    (hm : (m.dropWhile (· == 0)).length ≤ 16) : SpellsInteger (head ++ b) (Bytes.ofBigEndian m)
  | negativeBig {head b m : Bytes} (hhead : Head.Announces 6 3 head) (h : SpellsBytes b m)
    (hm : (m.dropWhile (· == 0)).length ≤ 16) :
    SpellsInteger (head ++ b) (-1 - Bytes.ofBigEndian m)

/-- A magnitude without a sign. -/
@[simp] theorem signed_false (n : Nat) : signed false n = n := rfl

/-- A magnitude with a sign. -/
@[simp] theorem signed_true (n : Nat) : signed true n = -1 - n := by
  rw [signed, if_pos rfl]
  omega

/-- What is done with one head of an integer. -/
def integerStep (h : Head) : Reader (Turn Head Int) := do
  match h with
  | .unsigned n => return .done (signed false n.toNat)
  | .negative n => return .done (signed true n.toNat)
  | .tag t =>
    if t = bigPositive ∨ t = bigNegative then
      match ← Head.read with
      | .bytes length =>
        let m ← magnitude length
        return .done (signed (t == bigNegative) (Bytes.ofBigEndian m))
      | _ => throw .mismatch
    else return .again (← Head.read)
  | _ => throw .mismatch

/-- An integer is read one head after another. -/
theorem integer_eq (h : Head) : integer h = loop integerStep h := rfl

/-- A big integer is read from its magnitude. -/
theorem reads_bigInteger {t : UInt64} (ht : t = bigPositive ∨ t = bigNegative) {b m : Bytes}
    (h : SpellsBytes b m) (hm : (m.dropWhile (· == 0)).length ≤ 16) :
    Reads (integerStep (.tag t)) b (.done (signed (t == bigNegative) (Bytes.ofBigEndian m))) := by
  obtain ⟨hhead, hpieces⟩ := h
  rw [integerStep, if_pos ht]
  refine hhead.reads.bind ?_
  have hread := hpieces.reads_magnitude ((extendMagnitude_nil _).trans (if_pos hm))
  have hdone := hread.map fun m =>
    (Turn.done (signed (t == bigNegative) (Bytes.ofBigEndian m)) : Turn Head Int)
  rwa [Value.ofBigEndian_dropWhile] at hdone

/-- The two tags of big integers. -/
theorem bigTag_iff (t : UInt64) :
    t = bigPositive ∨ t = bigNegative ↔ t.toNat = 2 ∨ t.toNat = 3 := by
  rw [← UInt64.toNat_inj, ← UInt64.toNat_inj]
  exact Iff.rfl

/-- A tag is passed over, unless a magnitude must follow it. -/
theorem integerStep_tag {t : UInt64} (ht : ¬(t = bigPositive ∨ t = bigNegative)) :
    integerStep (.tag t) = do return .again (← Head.read) := by
  rw [integerStep, if_neg ht]

/-- The head that an integer begins with, and the turns that are taken from there on. -/
theorem SpellsInteger.loops {b : Bytes} {z : Int} (h : SpellsInteger b z) :
    ∃ head front body, b = front ++ body ∧ head ≠ .stop ∧ Reads Head.read front head ∧
      Loops integerStep head body (.ok z) := by
  induction h with
  | @unsigned n b h =>
    refine ⟨.unsigned (UInt64.ofNat n), b, [], (List.append_nil b).symm, by simp, ?_, ?_⟩
    · exact Head.reads_announced (by omega) rfl h
    · have hword : (UInt64.ofNat n).toNat = n := UInt64.toNat_ofNat_of_lt' h.lt
      exact .last fun rest => by rw [integerStep, hword]; rfl
  | @negative n b h =>
    refine ⟨.negative (UInt64.ofNat n), b, [], (List.append_nil b).symm, by simp, ?_, ?_⟩
    · exact Head.reads_announced (by omega) rfl h
    · have hword : (UInt64.ofNat n).toNat = n := UInt64.toNat_ofNat_of_lt' h.lt
      rw [← signed_true]
      exact .last fun rest => by rw [integerStep, hword]; rfl
  | @tagged t head b z hhead htag h ih =>
    obtain ⟨next, front, body, rfl, -, hnext, hbody⟩ := ih
    have hplain : ¬(UInt64.ofNat t = bigPositive ∨ UInt64.ofNat t = bigNegative) := by
      rw [bigTag_iff, UInt64.toNat_ofNat_of_lt' hhead.lt]
      omega
    refine ⟨.tag (UInt64.ofNat t), head, front ++ body, rfl, by simp, ?_, ?_⟩
    · exact Head.reads_announced (by omega) rfl hhead
    · refine .turn (ne_nil_of_reads_head hnext) ?_ hbody
      rw [integerStep_tag hplain]
      exact hnext.map Turn.again
  | positiveBig hhead h hm =>
    refine ⟨.tag bigPositive, _, _, rfl, by simp, ?_, .last ?_⟩
    · exact Head.reads_announced (by omega) rfl hhead
    · exact reads_bigInteger (.inl rfl) h hm
  | negativeBig hhead h hm =>
    refine ⟨.tag bigNegative, _, _, rfl, by simp, ?_, .last ?_⟩
    · exact Head.reads_announced (by omega) rfl hhead
    · rw [← signed_true]
      exact reads_bigInteger (.inr rfl) h hm

/-- **An integer is read however it is spelled.** -/
theorem reads_integer {b : Bytes} {z : Int} (h : SpellsInteger b z) :
    Reads (Item.next integer) b z := by
  obtain ⟨head, front, body, rfl, -, hhead, hbody⟩ := h.loops
  refine hhead.next ?_
  rw [integer_eq]
  exact hbody.answers

/-- An integer begins with a head that is no break. -/
theorem SpellsInteger.opens {b : Bytes} {z : Int} (h : SpellsInteger b z) : Opens b := by
  obtain ⟨head, front, body, hb, hstop, hhead, -⟩ := h.loops
  exact ⟨head, front, body, hb, hhead, hstop⟩

/-- Nothing is read as a big integer but a byte string that is short enough. -/
theorem takes_bigInteger {t : UInt64} (ht : t = bigPositive ∨ t = bigNegative) :
    Takes (integerStep (.tag t)) fun b turn =>
      ∃ m, SpellsBytes b m ∧ (m.dropWhile (· == 0)).length ≤ 16 ∧
        turn = .done (signed (t == bigNegative) (Bytes.ofBigEndian m)) := by
  rw [integerStep, if_pos ht]
  refine Head.takes_read.bind fun front next hnext => ?_
  cases next with
  | bytes length =>
    refine (takes_magnitude length).bind ?_
    rintro body m ⟨pieces, hpieces, hm⟩
    rw [extendMagnitude_nil] at hm
    split at hm
    · next hshort =>
      cases hm
      refine Takes.pure ⟨pieces.flatten, ?_, hshort, ?_⟩
      · rw [List.append_nil]
        exact .intro hnext hpieces
      · rw [Value.ofBigEndian_dropWhile]
    · cases hm
  | _ => exact Takes.fail _

/-- **Nothing is read as an integer that does not spell it.** -/
theorem takes_integer : Takes (Item.next integer) SpellsInteger := by
  refine Head.takes_read.bind fun front head hhead => ?_
  -- From each head on, the rest spells an integer behind whatever spells the head.
  suffices hloop : Takes (loop integerStep head) fun body z =>
      ∀ b, Head.Spelled head b → SpellsInteger (b ++ body) z by
    rw [integer_eq]
    exact hloop.mono fun body z h => h front hhead
  refine Takes.loop (P := fun head body z =>
    ∀ b, Head.Spelled head b → SpellsInteger (b ++ body) z) (fun head => ?_) head
  cases head with
  | unsigned n =>
    refine Takes.pure ?_
    intro b hb
    cases hb with | unsigned h =>
    rw [List.append_nil, signed_false]
    exact .unsigned h
  | negative n =>
    refine Takes.pure ?_
    intro b hb
    cases hb with | negative h =>
    rw [List.append_nil, signed_true]
    exact .negative h
  | tag t =>
    by_cases ht : t = bigPositive ∨ t = bigNegative
    · refine (takes_bigInteger ht).mono ?_
      rintro body _ ⟨m, hcontent, hshort, rfl⟩ b hb
      cases hb with | tag h =>
      rcases ht with rfl | rfl
      · rw [show (bigPositive == bigNegative) = false from rfl, signed_false]
        exact .positiveBig h hcontent hshort
      · rw [show (bigNegative == bigNegative) = true from rfl, signed_true]
        exact .negativeBig h hcontent hshort
    · rw [integerStep_tag ht]
      refine Head.takes_read.bind fun front next hnext => Takes.pure ?_
      intro later z hlater b hb
      cases hb with | tag h =>
      rw [bigTag_iff, not_or] at ht
      rw [List.append_nil]
      exact .tagged h ht (hlater front hnext)
  | _ => exact Takes.fail _

/-! ### Bounds -/

/-- The bytes `b` begin with the integer `z`. -/
def Begins (b : Bytes) (z : Int) : Prop :=
  ∃ front rest, b = front ++ rest ∧ SpellsInteger front z

/-- The integer `z`, if it is between `lo` and `hi`. -/
def within (lo hi z : Int) : Except Fault Int :=
  if lo ≤ z ∧ z ≤ hi then .ok z else .error .mismatch

/-- All types of integers answer `r` for the bytes `b`, each within its own bounds. -/
structure IntegersAgree (b : Bytes) (r : Except Fault Int) : Prop where
  uint8 : (fromCbor? .uint8 b).map (fun n => (n.toNat : Int)) = r >>= within 0 (2 ^ 8 - 1)
  uint32 : (fromCbor? .uint32 b).map (fun n => (n.toNat : Int)) = r >>= within 0 (2 ^ 32 - 1)
  uint64 : (fromCbor? .uint64 b).map (fun n => (n.toNat : Int)) = r >>= within 0 (2 ^ 64 - 1)
  int64 : (fromCbor? .int64 b).map Int64.toInt = r >>= within (-2 ^ 63) (2 ^ 63 - 1)

/-- A type that holds the integers between two bounds reads them, and refuses all others. -/
theorem fromCbor?_integerWithin {s : Shape} {lo hi : Int} {ofInt : Int → s.Carrier}
    (hitem : s.item = fun h => do return ofInt (← integerWithin lo hi h)) {toInt : s.Carrier → Int}
    (hofInt : ∀ z, lo ≤ z → z ≤ hi → toInt (ofInt z) = z) (b : Bytes) :
    (fromCbor? s b).map toInt = (Item.next integer b).map Prod.fst >>= within lo hi := by
  have hread : s.read = Item.next integer >>= fun z =>
      if lo ≤ z ∧ z ≤ hi then return ofInt z else throw .mismatch := by
    rw [Shape.read, hitem, Item.next, Item.next, bind_assoc]
    refine congrArg _ (funext fun h => ?_)
    rw [integerWithin, bind_assoc]
    refine congrArg _ (funext fun z => ?_)
    split
    · rw [pure_bind]
    · rfl
  rw [fromCbor?, hread, StateT.run_bind]
  show _ = Except.map Prod.fst ((Item.next integer).run b) >>= within lo hi
  cases (Item.next integer).run b with
  | error e => rfl
  | ok p =>
    show _ = within lo hi p.1
    simp only [Bind.bind, Except.bind]
    by_cases hz : lo ≤ p.1 ∧ p.1 ≤ hi
    · rw [within, if_pos hz, if_pos hz]
      exact congrArg Except.ok (hofInt p.1 hz.1 hz.2)
    · rw [within, if_neg hz, if_neg hz]
      rfl

/-- All types of integers read the integer that is read first. -/
theorem integersAgree (b : Bytes) : IntegersAgree b ((Item.next integer b).map Prod.fst) where
  uint8 := by
    have hitem : Shape.item .uint8 = fun h => do
        return UInt8.ofNat (← integerWithin 0 0xff h).toNat := rfl
    refine fromCbor?_integerWithin hitem (fun z hlo hhi => ?_) b
    rw [UInt8.toNat_ofNat_of_lt' (show z.toNat < 2 ^ 8 by omega), Int.toNat_of_nonneg hlo]
  uint32 := by
    have hitem : Shape.item .uint32 = fun h => do
        return UInt32.ofNat (← integerWithin 0 0xffffffff h).toNat := rfl
    refine fromCbor?_integerWithin hitem (fun z hlo hhi => ?_) b
    rw [UInt32.toNat_ofNat_of_lt' (show z.toNat < 2 ^ 32 by omega), Int.toNat_of_nonneg hlo]
  uint64 := by
    have hitem : Shape.item .uint64 = fun h => do
        return UInt64.ofNat (← integerWithin 0 0xffffffffffffffff h).toNat := rfl
    refine fromCbor?_integerWithin hitem (fun z hlo hhi => ?_) b
    rw [UInt64.toNat_ofNat_of_lt' (show z.toNat < 2 ^ 64 by omega), Int.toNat_of_nonneg hlo]
  int64 := by
    have hitem : Shape.item .int64 = fun h => do
        return Int64.ofInt (← integerWithin (-0x8000000000000000) 0x7fffffffffffffff h) := rfl
    refine fromCbor?_integerWithin hitem (fun z hlo hhi => ?_) b
    exact Int64.toInt_ofInt_of_le hlo (by omega)

/-- **No integer wraps.** Either the bytes begin with no integer, and all types of integers refuse
    them with one and the same fault, or they begin with one integer, and every type reads it if it
    is within its bounds and calls it a mismatch if it is not. -/
theorem integers_never_wrap (b : Bytes) :
    (∃ fault, (∀ z, ¬Begins b z) ∧ IntegersAgree b (.error fault)) ∨
      ∃ z, (∀ y, Begins b y ↔ y = z) ∧ IntegersAgree b (.ok z) := by
  have hagree := integersAgree b
  have hbegins : ∀ y, Begins b y → ∃ rest, Item.next integer b = .ok (y, rest) := by
    rintro y ⟨front, rest, rfl, hspells⟩
    exact ⟨rest, reads_integer hspells rest⟩
  cases hread : Item.next integer b with
  | error fault =>
    refine .inl ⟨fault, fun z hz => ?_, by rwa [hread] at hagree⟩
    obtain ⟨rest, hz⟩ := hbegins z hz
    rw [hread] at hz
    cases hz
  | ok p =>
    obtain ⟨z, rest⟩ := p
    obtain ⟨front, hb, hspells⟩ := takes_integer b z rest hread
    refine .inr ⟨z, fun y => ⟨fun hy => ?_, ?_⟩, by rwa [hread] at hagree⟩
    · obtain ⟨rest', hy⟩ := hbegins y hy
      rw [hread] at hy
      cases hy
      rfl
    · rintro rfl
      exact ⟨front, rest, hb, hspells⟩

/-- The magnitude of `-257` in two segments, the first of which is zero. -/
example : fromCbor? .int64 [0xc3, 0x5f, 0x41, 0x00, 0x42, 0x01, 0x00, 0xff] = .ok (-257) ∧
    fromCbor? .uint64 [0xc3, 0x5f, 0x41, 0x00, 0x42, 0x01, 0x00, 0xff] = .error .mismatch := by
  decide

end TableVault.Cbor
