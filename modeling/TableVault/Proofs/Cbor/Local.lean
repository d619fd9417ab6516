import Mathlib
import TableVault.Cbor.Shape

namespace TableVault.Cbor

/-!
# Readers look at nothing behind what they take

Whatever a reader answers to a front part of its input it answers to the whole input as well,
unless the front part ends too early for it.

* `Agrees` — one reader answers to longer inputs as another one does;
* `Local` — a reader agrees with itself;
* `Local.bind` and `Local.loop` — readers that are composed of such readers;
* `Shape.local_read` — the reader of every shape is one;
* `truncated_of_prefix` — where a byte string is read to its end, nothing shorter is read.
-/

/-- An answer, and the answer if the input has `s` behind it: the same one, and `s` is left over.
    An input that ends too early tells nothing. -/
def Kept {α : Type} (s : Bytes) (x y : Except Fault (α × Bytes)) : Prop :=
  match x with
  | .ok (a, r) => y = .ok (a, r ++ s)
  | .error e => e = .truncated ∨ y = .error e

/-- On longer inputs `y` answers as `x` does. -/
def Agrees {α : Type} (x y : Reader α) : Prop :=
  ∀ b s, Kept s (x b) (y (b ++ s))

/-- The answers of a reader do not depend on what is behind its input. -/
def Local {α : Type} (x : Reader α) : Prop := Agrees x x

/-! ### Composed readers -/

section Composed

variable {α β σ ρ : Type}

/-- Readers agree if they go on alike from results that agree. -/
theorem Agrees.bind {x y : Reader α} {f g : α → Reader β} (hx : Agrees x y)
    (hf : ∀ a, Agrees (f a) (g a)) : Agrees (x >>= f) (y >>= g) := by
  intro b s
  have hfirst := hx b s
  show Kept s (StateT.bind x f b) (StateT.bind y g (b ++ s))
  simp only [StateT.bind, Bind.bind, Except.bind]
  cases hxb : x b with
  | error e =>
    rw [hxb] at hfirst
    rcases hfirst with rfl | herror
    · exact .inl rfl
    · rw [herror]
      exact .inr rfl
  | ok p =>
    rw [hxb] at hfirst
    have hyb : y (b ++ s) = .ok (p.1, p.2 ++ s) := hfirst
    rw [hyb]
    exact hf p.1 p.2 s

namespace Local

/-- A result that is there already. -/
theorem pure (a : α) : Local (Pure.pure a : Reader α) := fun _ _ => rfl

/-- A failure. -/
theorem fail (e : Fault) : Local (throw e : Reader α) := fun _ _ => .inr rfl

/-- A computation that does not read. -/
theorem lift (x : Except Fault α) : Local (liftM x : Reader α) := by
  cases x with
  | ok a => exact pure a
  | error e => exact fail e

/-- One reader after another. -/
theorem bind {x : Reader α} {f : α → Reader β} (hx : Local x) (hf : ∀ a, Local (f a)) :
    Local (x >>= f) :=
  Agrees.bind hx hf

/-- A result that is changed at the end. -/
theorem map {x : Reader α} (hx : Local x) (g : α → β) : Local (do return g (← x)) :=
  hx.bind fun a => pure (g a)

/-- A choice between two readers. -/
theorem ite {p : Prop} [Decidable p] {x y : Reader α} (hx : Local x) (hy : Local y) :
    Local (if p then x else y) := by
  split
  · exact hx
  · exact hy

/-- The next byte. -/
theorem byte : Local Reader.byte := by
  intro b s
  cases b with
  | nil => exact .inl rfl
  | cons x b => rfl

/-- A fixed number of bytes. -/
theorem take (n : Nat) : Local (Reader.take n) := by
  induction n with
  | zero => exact pure []
  | succ n ih => exact byte.bind fun x => ih.map (x :: ·)

/-- A repetition with fuel agrees with one that has more fuel, since running out of fuel is
    answered like running out of input. -/
theorem loopWithin {step : σ → Reader (Reader.Turn σ α)} (hstep : ∀ s, Local (step s)) {n m : Nat}
    (h : n ≤ m) (s : σ) : Agrees (Reader.loopWithin step n s) (Reader.loopWithin step m s) := by
  induction n generalizing m s with
  | zero => exact fun _ _ => .inl rfl
  | succ n ih =>
    obtain ⟨m, rfl⟩ : ∃ k, m = k + 1 := ⟨m - 1, by omega⟩
    refine Agrees.bind (hstep s) fun turn => ?_
    cases turn with
    | again t => exact ih (by omega) t
    | done a => exact pure a

/-- A repetition. -/
theorem loop {step : σ → Reader (Reader.Turn σ α)} (hstep : ∀ s, Local (step s)) (s : σ) :
    Local (Reader.loop step s) := by
  refine (hstep s).bind fun turn => ?_
  cases turn with
  | again t =>
    intro b later
    have hfuel : b.length + 1 ≤ (b ++ later).length + 1 := by
      rw [List.length_append]
      omega
    exact loopWithin hstep hfuel t b later
  | done a => exact pure a

end Local

end Composed

/-! ### Heads and sequences -/

/-- The argument of a head. -/
theorem Head.local_argument (detail : Nat) : Local (Head.argument detail) := by
  refine Local.ite (Local.pure _) (Local.ite ?_ (Local.ite (Local.fail _) (Local.pure _)))
  exact (Local.take _).map _

/-- A head. -/
theorem Head.local_read : Local Head.read := by
  refine Local.byte.bind fun b => ?_
  exact (Head.local_argument _).bind fun n => Local.lift _

section Sequences

variable {α ρ : Type}

/-- An item from its head on. -/
theorem Local.next {item : Item α} (h : ∀ head, Local (item head)) : Local (Item.next item) :=
  Head.local_read.bind h

/-- A number of items. -/
theorem Local.counted {step : ρ → Item ρ} (hstep : ∀ r h, Local (step r h)) (n : Nat) (r : ρ) :
    Local (counted step n r) := by
  induction n generalizing r with
  | zero => exact Local.pure r
  | succ n ih => exact Head.local_read.bind fun h => (hstep r h).bind ih

/-- Items up to a stop. -/
theorem Local.untilStop {step : ρ → Item ρ} (hstep : ∀ r h, Local (step r h)) (r : ρ) :
    Local (untilStop step r) := by
  refine Local.loop (fun r => Head.local_read.bind fun h => ?_) r
  split
  · exact Local.pure _
  · exact (hstep r _).map _

/-- The items that a head announced. -/
theorem Local.forEach {step : ρ → Item ρ} (hstep : ∀ r h, Local (step r h)) (length : Option Nat)
    (r : ρ) : Local (forEach length step r) := by
  cases length with
  | none => exact Local.untilStop hstep r
  | some n => exact Local.counted hstep n r

/-- The items that a head announced, in order. -/
theorem Local.many {item : Item α} (h : ∀ head, Local (item head)) (length : Option Nat) :
    Local (many length item) := by
  refine (Local.forEach (fun acc head => ?_) length []).map List.reverse
  exact (h head).map (· :: acc)

/-- The first head that is no tag. -/
theorem local_untag (h : Head) : Local (untag h) := by
  refine Local.loop (fun h => ?_) h
  split
  · exact Head.local_read.map _
  · exact Local.pure _

end Sequences

/-! ### Strings and integers -/

/-- The segments of a string. -/
theorem Local.segments {ρ : Type} {announced : Head → Option (Option Nat)}
    {segment : ρ → Nat → Reader ρ} (hsegment : ∀ r n, Local (segment r n)) (length : Option Nat)
    (r : ρ) : Local (segments announced segment length r) := by
  cases length with
  | some n => exact hsegment r n
  | none =>
    rw [Cbor.segments]
    refine Local.loop (fun s => Head.local_read.bind fun h => ?_) (0, r)
    split
    · exact Local.ite (Local.pure _) (Local.pure _)
    · split
      · exact (hsegment s.2 _).map _
      · exact Local.pure _
      · exact Local.fail _

/-- A byte string. -/
theorem local_byteString (length : Option Nat) : Local (byteString length) := by
  refine (Local.segments (fun acc n => ?_) length []).map _
  exact (Local.take n).map (· :: acc)

/-- The characters of a text. -/
theorem local_textFrom (fuel unread : Nat) (carry : Bytes) : Local (textFrom fuel unread carry) := by
  induction fuel generalizing unread carry with
  | zero => exact Local.ite (Local.pure _) (Local.fail _)
  | succ fuel ih =>
    refine Local.ite (Local.ite (Local.pure _) (Local.fail _)) ?_
    refine (Local.take _).bind fun fresh => ?_
    refine Local.ite ?_ ?_
    · exact (Local.fail _).bind fun _ => (ih _ _).map _
    · exact (Local.pure _).bind fun _ => (ih _ _).map _

/-- A text. -/
theorem local_textString (length : Option Nat) : Local (textString length) := by
  refine (Local.segments (fun acc n => ?_) length []).map _
  exact (local_textFrom n n []).map (· :: acc)

/-- A segment of a magnitude. -/
theorem local_magnitudeSegment (fuel : Nat) (m : Bytes) (n : Nat) :
    Local (magnitudeSegment fuel m n) := by
  induction fuel generalizing m n with
  | zero => exact Local.pure m
  | succ fuel ih =>
    refine Local.ite (Local.pure m) ((Local.take _).bind fun b => ?_)
    exact (Local.lift _).bind fun m => ih m _

/-- The magnitude of a big integer. -/
theorem local_magnitude (length : Option Nat) : Local (magnitude length) :=
  Local.segments (fun m n => local_magnitudeSegment n m n) length []

/-- An integer. -/
theorem local_integer (h : Head) : Local (integer h) := by
  refine Local.loop (fun h => ?_) h
  split
  · exact Local.pure _
  · exact Local.pure _
  · refine Local.ite (Head.local_read.bind fun h => ?_) (Head.local_read.map _)
    split
    · exact (local_magnitude _).map _
    · exact Local.fail _
  · exact Local.fail _

/-! ### Values -/

/-- A big integer. -/
theorem local_bigInteger (isNegative : Bool) (length : Nat) :
    Local (bigInteger isNegative length) := by
  refine (local_magnitude (some length)).bind fun m => Local.ite ?_ ?_
  · exact (Local.fail _).bind fun _ => Local.pure _
  · exact (Local.pure _).bind fun _ => Local.pure _

/-- A reader that fails or returns the reader of a local item. -/
def Yields (deeper : Reader (Item Value)) : Prop :=
  ∀ {β : Type} {f : Item Value → Reader β}, (∀ item, (∀ h, Local (item h)) → Local (f item)) →
    Local (deeper >>= f)

section Values

variable {deeper : Reader (Item Value)}

/-- A tagged item. -/
theorem local_tagged (hdeeper : Yields deeper) (t : UInt64) (next : Head) :
    Local (tagged deeper t next) := by
  have hcontent : Local (do return Value.tag t (← (← deeper) next)) :=
    hdeeper fun item hitem => (hitem next).map _
  unfold tagged
  split
  · exact Local.ite (local_bigInteger _ _) hcontent
  · exact hcontent

/-- A value, if what is nested in it is local. -/
theorem local_valueWith (hdeeper : Yields deeper) (h : Head) : Local (valueWith deeper h) := by
  cases h with
  | unsigned n => exact Local.pure _
  | negative n => exact Local.pure _
  | float d => exact Local.pure _
  | simple n => exact Local.lift _
  | stop => exact Local.fail _
  | bytes length => exact (local_byteString length).map _
  | text length => exact (local_textString length).map _
  | array length => exact hdeeper fun item hitem => (Local.many hitem length).map _
  | map length =>
    refine hdeeper fun item hitem => (Local.many (fun h => ?_) length).map _
    exact (hitem h).bind fun k => (Local.next hitem).map (k, ·)
  | tag t => exact Head.local_read.bind fun next => local_tagged hdeeper t next

/-- A value that is nested at most as deep as a budget allows. -/
theorem local_valueFrom (budget : Nat) (h : Head) : Local (valueFrom budget h) := by
  induction budget generalizing h with
  | zero => exact local_valueWith (fun _ => Local.fail .tooDeep) h
  | succ budget ih => exact local_valueWith (fun hf => hf _ ih) h

end Values

/-! ### Fields and typed content -/

/-- The name of a field. -/
theorem local_fieldName (h : Head) : Local (fieldName h) := by
  refine (local_untag h).bind fun h => ?_
  split
  · refine Local.ite ((Local.take _).bind fun b => ?_) (Local.fail _)
    exact Local.ite (Local.pure _) (Local.fail _)
  · exact Local.ite (Local.take _) (Local.fail _)
  · exact Local.fail _

section Items

variable {α ρ : Type}

/-- A field that may come once. -/
theorem Local.once {item : Item α} (h : ∀ head, Local (item head)) (present : Option α) :
    Local (once present item) := by
  cases present with
  | none => exact (Local.next h).map some
  | some a => exact Local.fail _

/-- The entries of a record. -/
theorem Local.record {entry : ρ → Bytes → Reader ρ} (hentry : ∀ r name, Local (entry r name))
    (blank : ρ) (h : Head) : Local (record entry blank h) := by
  refine (local_untag h).bind fun h => ?_
  split
  · refine Local.forEach (fun r h => ?_) _ blank
    exact (local_fieldName h).bind fun name => hentry r name
  · exact Local.fail _

/-- Readers for the members of a list, one after another. -/
theorem Local.mapM {β : Type} {f : β → Reader α} (hf : ∀ x, Local (f x)) (xs : List β) :
    Local (xs.mapM f) := by
  induction xs with
  | nil => exact Local.pure []
  | cons x xs ih =>
    rw [List.mapM_cons]
    exact (hf x).bind fun a => ih.map (a :: ·)

/-- A list. -/
theorem Local.list {item : Item α} (hitem : ∀ head, Local (item head))
    (ofByte : UInt8 → Except Fault α) (h : Head) : Local (list item ofByte h) := by
  refine (local_untag h).bind fun h => ?_
  split
  · exact Local.many hitem _
  · exact (local_byteString _).bind fun b => Local.mapM (fun x => Local.lift (ofByte x)) b
  · exact Local.fail _

end Items

/-- An integer within bounds. -/
theorem local_integerWithin (lo hi : Int) (h : Head) : Local (integerWithin lo hi h) :=
  (local_integer h).bind fun _ => Local.ite (Local.pure _) (Local.fail _)

/-- A text. -/
theorem local_text (h : Head) : Local (text h) := by
  refine (local_untag h).bind fun h => ?_
  split
  · exact local_textString _
  · exact Local.fail _

/-- The value of an unknown field. -/
theorem local_skipValue : Local skipValue :=
  (Local.next (local_valueFrom _)).bind fun _ => Local.pure _

/-- An integer of 8 bits. -/
theorem local_uint8 (h : Head) : Local (uint8 h) :=
  (local_integerWithin _ _ h).map _

/-- An integer of 32 bits. -/
theorem local_uint32 (h : Head) : Local (uint32 h) :=
  (local_integerWithin _ _ h).map _

/-- An integer of 64 bits. -/
theorem local_uint64 (h : Head) : Local (uint64 h) :=
  (local_integerWithin _ _ h).map _

/-- A lock record. -/
theorem local_lockState (h : Head) : Local (LockState.read h) := by
  refine (Local.record (fun r name => ?_) _ h).bind fun r => Local.lift _
  refine Local.ite ?_ (Local.ite ?_ (Local.ite ?_ ?_))
  · exact (Local.once local_uint32 r.version).map _
  · exact (Local.once (Local.list local_uint8 _) r.salt).map _
  · exact (Local.once (Local.list local_uint8 _) r.sealed).map _
  · exact local_skipValue.bind fun _ => Local.pure r

/-- A profile. -/
theorem local_profile (h : Head) : Local (Profile.read h) := by
  refine (Local.record (fun r name => ?_) _ h).bind fun r => Local.lift _
  refine Local.ite ?_ (Local.ite ?_ (Local.ite ?_ ?_))
  · exact (Local.once local_text r.name).map _
  · exact (Local.once local_uint32 r.age).map _
  · exact (Local.once (Local.list local_text _) r.tags).map _
  · exact local_skipValue.bind fun _ => Local.pure r

/-- A boolean. -/
theorem local_bool (h : Head) : Local (Shape.readBool h) := by
  refine (local_untag h).bind fun h => ?_
  split
  · exact Local.ite (Local.pure _) (Local.ite (Local.pure _) (Local.fail _))
  · exact Local.fail _

/-- A float. -/
theorem local_double (h : Head) : Local (Shape.readDouble h) := by
  refine (local_untag h).bind fun h => ?_
  split
  · exact Local.pure _
  · exact Local.fail _

/-- An optional integer. -/
theorem local_optional (h : Head) : Local (Shape.readOptional h) := by
  unfold Shape.readOptional
  split
  · exact Local.pure _
  · exact Local.pure _
  · exact (local_uint32 _).map some

/-- Numbers by name. -/
theorem local_counters (h : Head) : Local (Shape.readCounters h) := by
  refine (local_untag h).bind fun h => ?_
  split
  · refine Local.forEach (fun m h => ?_) _ ∅
    exact (local_text h).bind fun k => (Local.next local_uint64).map (m.insert k)
  · exact Local.fail _

/-- **The reader of every shape is local.** -/
theorem Shape.local_read (s : Shape) : Local s.read := by
  refine Local.next fun h => ?_
  cases s with
  | value => exact local_valueFrom nestingLimit h
  | bool => exact local_bool h
  | uint8 => exact local_uint8 h
  | uint32 => exact local_uint32 h
  | uint64 => exact local_uint64 h
  | int64 => exact (local_integerWithin _ _ h).map _
  | double => exact local_double h
  | text => exact local_text h
  | optionalUInt32 => exact local_optional h
  | byteList => exact Local.list local_uint8 _ h
  | uint32List => exact Local.list local_uint32 _ h
  | textList => exact Local.list local_text _ h
  | counters => exact local_counters h
  | profile => exact local_profile h
  | lockState => exact local_lockState h

/-! ### Inputs that end too early -/

/-- **Where a byte string is read to its end, nothing shorter is read**, and nothing else is found
    wrong with it. -/
theorem truncated_of_prefix {α : Type} {x : Reader α} (hx : Local x) {b s : Bytes} {a : α}
    (hs : s ≠ []) (hread : x (b ++ s) = .ok (a, [])) : x b = .error .truncated := by
  have hkept := hx b s
  rw [hread] at hkept
  cases hb : x b with
  | ok p =>
    rw [hb] at hkept
    have hleft : ([] : Bytes) = p.2 ++ s := congrArg Prod.snd (Except.ok.inj hkept)
    exact absurd (List.append_eq_nil_iff.mp hleft.symm).2 hs
  | error e =>
    rw [hb] at hkept
    rcases hkept with rfl | herror
    · rfl
    · cases herror

end TableVault.Cbor
