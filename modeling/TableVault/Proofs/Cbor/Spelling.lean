import TableVault.Proofs.Cbor.Loops

namespace TableVault.Cbor

/-!
# How heads and byte strings are spelled

What is written is spelled in one way only, but more is read: an argument in more bytes than it
needs, and byte strings in segments, with other such strings nested in them.

* `Head.Spelled` — the bytes of a head of any form, and `Head.takes_read`, which shows that no
  others are read as one;
* `Segments` — the segments of a byte string without a length;
* `SpellsBytes` — the bytes of a byte string of either form;
* `reads_segments` and `takes_segments` — segments are read one after another, and nothing else
  is.
-/

open Reader

/-! ### Heads -/

namespace Head

/-- The bytes of a head. A string, an array or a map without a length is the first byte alone, and
    so is a break. -/
inductive Spelled : Head → Bytes → Prop
  | unsigned {n : UInt64} {b : Bytes} (h : Announces 0 n.toNat b) : Spelled (.unsigned n) b
  | negative {n : UInt64} {b : Bytes} (h : Announces 1 n.toNat b) : Spelled (.negative n) b
  | bytes {n : Nat} {b : Bytes} (h : Announces 2 n b) : Spelled (.bytes (some n)) b
  | openBytes : Spelled (.bytes none) [initial 2 31]
  | text {n : Nat} {b : Bytes} (h : Announces 3 n b) : Spelled (.text (some n)) b
  | openText : Spelled (.text none) [initial 3 31]
  | array {n : Nat} {b : Bytes} (h : Announces 4 n b) : Spelled (.array (some n)) b
  | openArray : Spelled (.array none) [initial 4 31]
  | map {n : Nat} {b : Bytes} (h : Announces 5 n b) : Spelled (.map (some n)) b
  | openMap : Spelled (.map none) [initial 5 31]
  | tag {t : UInt64} {b : Bytes} (h : Announces 6 t.toNat b) : Spelled (.tag t) b
  | simple {k : UInt8} {detail n : Nat} {b : Bytes} (h : Argument detail n b)
    (hspecial : special detail n = .simple k) : Spelled (.simple k) (initial 7 detail :: b)
  | float {d : Double} {detail n : Nat} {b : Bytes} (h : Argument detail n b)
    (hspecial : special detail n = .float d) : Spelled (.float d) (initial 7 detail :: b)
  | stop : Spelled .stop [initial 7 31]

/-- A head of the seventh kind is read in any of its widths. -/
theorem reads_special {detail n : Nat} {b : Bytes} (h : Argument detail n b) :
    Reads read (initial 7 detail :: b) (special detail n) := by
  have hdetail := h.lt.1
  exact reads_initial (by omega) (by omega) h.reads rfl

/-- **A spelled head is read.** -/
theorem Spelled.reads {head : Head} {b : Bytes} (h : Spelled head b) : Reads read b head := by
  cases h with
  | unsigned h => exact reads_announced (by omega) (by simp [ofArgument]) h
  | negative h => exact reads_announced (by omega) (by simp [ofArgument]) h
  | tag h => exact reads_announced (by omega) (by simp [ofArgument]) h
  | bytes h | text h | array h | map h => exact reads_announced (by omega) rfl h
  | openBytes | openText | openArray | openMap | stop => exact fun rest => rfl
  | simple h hspecial | float h hspecial =>
    rw [← hspecial]
    exact reads_special h

/-- The argument that is read is spelled, or there is none. -/
theorem takes_argument {detail : Nat} (hdetail : detail < 32) :
    Takes (argument detail) fun front n =>
      (∃ m, n = some m ∧ Argument detail m front) ∨ (n = none ∧ detail = 31 ∧ front = []) := by
  unfold argument
  split
  · next hsmall => exact Takes.pure (.inl ⟨detail, rfl, .inside hsmall⟩)
  split
  · next hwide =>
    obtain ⟨i, rfl⟩ : ∃ i, detail = 24 + i := ⟨detail - 24, by omega⟩
    rw [Nat.add_sub_cancel_left]
    refine (Takes.take _).bind ?_
    rintro front _ ⟨rfl, hlength⟩
    refine Takes.pure (.inl ⟨_, rfl, ?_⟩)
    have hfits := Bytes.ofBigEndian_lt front
    rw [hlength] at hfits
    have hbytes := Bytes.bigEndian_ofBigEndian front
    rw [hlength] at hbytes
    rw [List.append_nil]
    nth_rewrite 2 [← hbytes]
    exact .behind i (by omega) hfits
  split
  · exact Takes.fail _
  · next hlast => exact Takes.pure (.inr ⟨rfl, by omega, rfl⟩)

/-- A head of the seventh kind is a float or a simple value. -/
theorem special_cases (detail n : Nat) :
    (∃ d, special detail n = .float d) ∨ ∃ k, special detail n = .simple k := by
  unfold special
  split
  · exact .inl ⟨_, rfl⟩
  split
  · exact .inl ⟨_, rfl⟩
  split
  · exact .inl ⟨_, rfl⟩
  · exact .inr ⟨_, rfl⟩

/-- A kind with an argument spells the head that is made of them. -/
theorem spelled_of_argument {kind detail n : Nat} {b : Bytes} {head : Head} (hkind : kind < 8)
    (h : Argument detail n b) (hhead : ofArgument kind detail (some n) = .ok head) :
    Spelled head (initial kind detail :: b) := by
  have hword : (UInt64.ofNat n).toNat = n := UInt64.toNat_ofNat_of_lt' h.lt.2
  interval_cases kind
  case «0» => cases hhead; exact .unsigned (by rw [hword]; exact .intro h)
  case «1» => cases hhead; exact .negative (by rw [hword]; exact .intro h)
  case «2» => cases hhead; exact .bytes (.intro h)
  case «3» => cases hhead; exact .text (.intro h)
  case «4» => cases hhead; exact .array (.intro h)
  case «5» => cases hhead; exact .map (.intro h)
  case «6» => cases hhead; exact .tag (by rw [hword]; exact .intro h)
  case «7» =>
    obtain rfl : special detail n = head := Except.ok.inj hhead
    rcases special_cases detail n with ⟨d, hfloat⟩ | ⟨k, hsimple⟩
    · rw [hfloat]
      exact .float h hfloat
    · rw [hsimple]
      exact .simple h hsimple

/-- A kind without an argument spells the head that is made of it. -/
theorem spelled_of_bare {kind : Nat} {head : Head} (hkind : kind < 8)
    (hhead : ofArgument kind 31 none = .ok head) : Spelled head [initial kind 31] := by
  interval_cases kind <;> cases hhead <;> constructor

/-- **Only spelled heads are read.** -/
theorem takes_read : Takes read fun front head => Spelled head front := by
  have hbyte : Takes Reader.byte fun front x => front = [x] := by
    rintro (_ | ⟨y, b⟩) x rest hread
    · cases hread
    · cases hread
      exact ⟨[y], rfl, rfl⟩
  refine hbyte.bind fun first x hfront => ?_
  subst hfront
  have hx : x.toNat < 256 := x.toNat_lt
  have hfirst : initial (x.toNat / 32) (x.toNat % 32) = x := by
    rw [initial, Nat.div_add_mod' x.toNat 32, UInt8.ofNat_toNat]
  refine (takes_argument (Nat.mod_lt _ (by decide))).bind ?_
  rintro front _ (⟨n, rfl, harg⟩ | ⟨rfl, hdetail, rfl⟩)
  · refine Takes.lift fun head hhead => ?_
    have hspelled := spelled_of_argument (by omega) harg hhead
    rwa [hfirst, ← List.append_nil front] at hspelled
  · refine Takes.lift fun head hhead => ?_
    rw [hdetail] at hhead hfirst
    have hspelled := spelled_of_bare (by omega) hhead
    rwa [hfirst] at hspelled

end Head

/-! ### Byte strings -/

/-- The segments of a byte string without a length: pieces that have one each, and strings like it
    nested in it, whose pieces count as its own. -/
inductive Segments : Bytes → List Bytes → Prop
  | none : Segments [] []
  | piece {head piece b : Bytes} {pieces : List Bytes} (hhead : Head.Announces 2 piece.length head)
    (hrest : Segments b pieces) : Segments (head ++ piece ++ b) (piece :: pieces)
  | nested {inner b : Bytes} {ps qs : List Bytes} (hinner : Segments inner ps)
    (hrest : Segments b qs) :
    Segments ([Head.initial 2 31] ++ inner ++ [Head.initial 7 31] ++ b) (ps ++ qs)

/-- The pieces of what stands behind the head of a byte string: one piece of the length that the
    head announces, or segments up to a break. -/
inductive Pieces : Option Nat → Bytes → List Bytes → Prop
  | whole (piece : Bytes) : Pieces (some piece.length) piece [piece]
  | segmented {b : Bytes} {pieces : List Bytes} (h : Segments b pieces) :
    Pieces none (b ++ [Head.initial 7 31]) pieces

/-- The bytes of a byte string, and its content. -/
inductive SpellsBytes : Bytes → Bytes → Prop
  | intro {length : Option Nat} {head b : Bytes} {pieces : List Bytes}
    (hhead : Head.Spelled (.bytes length) head) (hpieces : Pieces length b pieces) :
    SpellsBytes (head ++ b) pieces.flatten

section Strings

variable {ρ : Type} {segment : ρ → Nat → Reader ρ} {next : ρ → Bytes → Except Fault ρ}

/-- One turn of the segments of a byte string. The number counts the strings that are open in it. -/
def segmentStep (segment : ρ → Nat → Reader ρ) (s : Nat × ρ) : Reader (Turn (Nat × ρ) ρ) := do
  match ← Head.read with
  | .stop => if s.1 = 0 then return .done s.2 else return .again (s.1 - 1, s.2)
  | h =>
    match h.bytesLength? with
    | some (some n) => return .again (s.1, ← segment s.2 n)
    | some none => return .again (s.1 + 1, s.2)
    | none => throw .malformed

/-- The segments of a byte string without a length are read in such turns. -/
theorem segments_eq (r : ρ) :
    segments Head.bytesLength? segment none r = loop (segmentStep segment) (0, r) := rfl

/-- A piece is a turn. -/
theorem reads_segmentStep {head piece : Bytes} {r r' : ρ} (depth : Nat)
    (hhead : Head.Announces 2 piece.length head) (h : Reads (segment r piece.length) piece r') :
    Reads (segmentStep segment (depth, r)) (head ++ piece) (.again (depth, r')) :=
  (Head.Spelled.bytes hhead).reads.bind (h.map fun r => Turn.again (depth, r))

/-- Segments are turns, whatever follows them. -/
theorem Segments.loops {b : Bytes} {pieces : List Bytes} (h : Segments b pieces)
    (hsegment : ∀ r piece r', next r piece = .ok r' → Reads (segment r piece.length) piece r')
    {depth : Nat} {r r' : ρ} (hpieces : pieces.foldlM next r = .ok r') {later : Bytes}
    {a : Except Fault ρ} (hlater : Loops (segmentStep segment) (depth, r') later a) :
    Loops (segmentStep segment) (depth, r) (b ++ later) a := by
  induction h generalizing depth r r' later with
  | none =>
    cases hpieces
    exact hlater
  | @piece head piece b pieces hhead _ ih =>
    rw [List.foldlM_cons] at hpieces
    cases hnext : next r piece with
    | error e =>
      rw [hnext] at hpieces
      cases hpieces
    | ok r₁ =>
      rw [hnext] at hpieces
      have hturn := reads_segmentStep depth hhead (hsegment r piece r₁ hnext)
      rw [List.append_assoc]
      exact .turn (by simp [hhead.ne_nil]) hturn (ih hpieces hlater)
  | @nested inner b ps qs _ _ ihinner ihrest =>
    -- The string that is nested opens one more level, and its break closes it.
    rw [List.foldlM_append] at hpieces
    cases hinner : ps.foldlM next r with
    | error e =>
      rw [hinner] at hpieces
      cases hpieces
    | ok r₁ =>
      rw [hinner] at hpieces
      have hrest := ihrest hpieces hlater
      have hclose : Loops (segmentStep segment) (depth + 1, r₁)
          ([Head.initial 7 31] ++ (b ++ later)) a := .turn (by simp) (fun rest => rfl) hrest
      have hopen : Loops (segmentStep segment) (depth, r)
          ([Head.initial 2 31] ++ (inner ++ ([Head.initial 7 31] ++ (b ++ later)))) a :=
        .turn (by simp) (fun rest => rfl) (ihinner hinner hclose)
      simpa only [List.append_assoc] using hopen

/-- **A byte string is read in either form**, piece by piece. -/
theorem Pieces.reads {length : Option Nat} {b : Bytes} {pieces : List Bytes}
    (h : Pieces length b pieces)
    (hsegment : ∀ r piece r', next r piece = .ok r' → Reads (segment r piece.length) piece r')
    {r r' : ρ} (hpieces : pieces.foldlM next r = .ok r') :
    Reads (segments Head.bytesLength? segment length r) b r' := by
  cases h with
  | whole =>
    apply hsegment
    simpa using hpieces
  | segmented h =>
    have hlast : Loops (segmentStep segment) (0, r') [Head.initial 7 31] (.ok r') :=
      .last fun rest => rfl
    rw [segments_eq]
    exact (h.loops hsegment hpieces hlast).answers

/-- What is left of the segments of a string in which others are open, up to all their breaks. -/
inductive Closes : (depth : Nat) → Bytes → List Bytes → Prop
  | last {b : Bytes} {pieces : List Bytes} (h : Segments b pieces) :
    Closes 0 (b ++ [Head.initial 7 31]) pieces
  | level {depth : Nat} {b later : Bytes} {ps qs : List Bytes} (h : Segments b ps)
    (hlater : Closes depth later qs) :
    Closes (depth + 1) (b ++ [Head.initial 7 31] ++ later) (ps ++ qs)

/-- Something may come in front of what is left. -/
theorem Closes.prepend {depth : Nat} {front later : Bytes} {new pieces : List Bytes}
    (hfront : ∀ b ps, Segments b ps → Segments (front ++ b) (new ++ ps))
    (h : Closes depth later pieces) : Closes depth (front ++ later) (new ++ pieces) := by
  cases h with
  | last h =>
    rw [← List.append_assoc]
    exact .last (hfront _ _ h)
  | level h hlater =>
    rw [← List.append_assoc, ← List.append_assoc, ← List.append_assoc]
    exact .level (hfront _ _ h) hlater

/-- **Nothing is read as a byte string but its pieces**, one after another. -/
theorem takes_segments
    (hsegment : ∀ r n, Takes (segment r n) fun piece r' => piece.length = n ∧ next r piece = .ok r')
    (length : Option Nat) (r : ρ) :
    Takes (segments Head.bytesLength? segment length r) fun b r' =>
      ∃ pieces, Pieces length b pieces ∧ pieces.foldlM next r = .ok r' := by
  cases length with
  | some n =>
    refine (hsegment r n).mono ?_
    rintro piece r' ⟨rfl, hnext⟩
    refine ⟨[piece], .whole piece, ?_⟩
    simpa using hnext
  | none =>
    suffices hloop : Takes (loop (segmentStep segment) (0, r)) fun b r' =>
        ∃ pieces, Closes 0 b pieces ∧ pieces.foldlM next r = .ok r' by
      rw [segments_eq]
      refine hloop.mono ?_
      rintro _ r' ⟨pieces, ⟨h⟩, hpieces⟩
      exact ⟨pieces, .segmented h, hpieces⟩
    -- The strings that are open are closed one after another, the innermost first.
    refine Takes.loop (P := fun s b r' =>
      ∃ pieces, Closes s.1 b pieces ∧ pieces.foldlM next s.2 = .ok r') ?_ (0, r)
    rintro ⟨depth, r⟩
    refine Head.takes_read.bind fun front head hhead => ?_
    cases hhead with
    | stop =>
      cases depth with
      | zero => exact Takes.pure ⟨[], .last .none, rfl⟩
      | succ depth =>
        refine Takes.pure ?_
        rintro later r' ⟨pieces, hlater, hpieces⟩
        exact ⟨pieces, .level .none hlater, hpieces⟩
    | bytes h =>
      refine (hsegment r _).bind ?_
      rintro piece r₁ ⟨rfl, hnext⟩
      refine Takes.pure ?_
      rintro later r' ⟨pieces, hlater, hpieces⟩
      rw [List.append_nil]
      refine ⟨[piece] ++ pieces, hlater.prepend fun b ps hps => .piece h hps, ?_⟩
      rw [List.cons_append, List.nil_append, List.foldlM_cons, hnext]
      exact hpieces
    | openBytes =>
      refine Takes.pure ?_
      rintro later r' ⟨_, ⟨⟩ | @⟨_, b, later, ps, qs, hinner, hlater⟩, hpieces⟩
      have hfront : ∀ c rs, Segments c rs →
          Segments ([Head.initial 2 31] ++ b ++ [Head.initial 7 31] ++ c) (ps ++ rs) :=
        fun c rs hrs => .nested hinner hrs
      refine ⟨ps ++ qs, ?_, hpieces⟩
      simpa only [List.append_assoc, List.append_nil] using hlater.prepend hfront
    | _ => exact Takes.fail _

/-- The content of a byte string is read from all its pieces. -/
theorem Pieces.reads_byteString {length : Option Nat} {b : Bytes} {pieces : List Bytes}
    (h : Pieces length b pieces) : Reads (byteString length) b pieces.flatten := by
  have hpieces : Reads (segments Head.bytesLength? (fun acc n => do return (← Reader.take n) :: acc)
      length []) b pieces.reverse := by
    refine h.reads ?_ (foldlM_cons_reverse pieces)
    rintro acc piece _ ⟨⟩
    exact (Reads.take piece).map (· :: acc)
  have hread := hpieces.map fun reversed => reversed.reverse.flatten
  rw [List.reverse_reverse] at hread
  exact hread

end Strings

end TableVault.Cbor
