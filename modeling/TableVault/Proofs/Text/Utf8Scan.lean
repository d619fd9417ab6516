import TableVault.Proofs.Text.Utf8Order

namespace TableVault.Utf8

/-!
# Scanning what has been written

A text is read in windows, and a window may end inside a character. Scanning a window of a
written text gives whole characters of it and carries over less than one.

* `Spells` — the bytes of a character, by how many there are; those of `encodeChar` are some
  (`spells_encodeChar`);
* `Spells.scan_append` and `Spells.scan_cut` — a written character is scanned off the front,
  and one that is cut short is left over;
* `scan_of_prefix` — a front part of a written text is scanned to its last whole character,
  and at most three bytes are left over;
* `decode?_encode` — a written text is read back.
-/

/-! ### Single characters -/

/-- The bytes of a character: its length decides which of the readers of single characters
    accepts it, and the readers of shorter ones refuse its first bytes. -/
inductive Spells (x : Char) : Bytes → Prop where
  | one {a : UInt8} (h : one? a = some x) : Spells x [a]
  | two {a b : UInt8} (h₁ : one? a = none) (h : two? a b = some x) : Spells x [a, b]
  | three {a b c : UInt8} (h₁ : one? a = none) (h₂ : two? a b = none) (h : three? a b c = some x) :
    Spells x [a, b, c]
  | four {a b c d : UInt8} (h₁ : one? a = none) (h₂ : two? a b = none) (h₃ : three? a b c = none)
    (h : four? a b c d = some x) : Spells x [a, b, c, d]

/-- A character is found by its number. -/
theorem scalar?_toNat {least : Nat} {x : Char} (h : least ≤ x.toNat) :
    scalar? least x.toNat = some x := by
  have hvalid : x.toNat.isValidChar := x.valid
  rw [scalar?, if_pos ⟨h, hvalid⟩, Char.ofNat_toNat]

/-- Six bits are read back from their continuation byte. -/
theorem continuation?_ofNat {k : Nat} (h : k < 64) : continuation? (UInt8.ofNat (0x80 + k)) = some k := by
  have hbyte : (UInt8.ofNat (0x80 + k)).toNat = 0x80 + k := by
    rw [UInt8.toNat_ofNat']
    omega
  rw [continuation?, hbyte, if_pos (by omega), Nat.add_sub_cancel_left]

/-- No byte from `0x80` on spells a character. -/
theorem one?_eq_none {a : UInt8} (h : 0x80 ≤ a.toNat) : one? a = none := by
  rw [one?, if_neg (by omega)]

/-- No two bytes spell a character if the first is `0xe0` or more. -/
theorem two?_eq_none {a : UInt8} (h : 0xe0 ≤ a.toNat) (b : UInt8) : two? a b = none := by
  unfold two?
  cases continuation? b with
  | none => rfl
  | some y => exact if_neg (by omega)

/-- No three bytes spell a character if the first is `0xf0` or more. -/
theorem three?_eq_none {a : UInt8} (h : 0xf0 ≤ a.toNat) (b c : UInt8) : three? a b c = none := by
  unfold three?
  cases continuation? b with
  | none => rfl
  | some y =>
    cases continuation? c with
    | none => rfl
    | some z => exact if_neg (by omega)

/-- **The bytes of a character spell it.** -/
theorem spells_encodeChar (x : Char) : Spells x (encodeChar x) := by
  have hbound : x.toNat < 0x110000 := toNat_lt x
  -- The number of a character is divided into a lead and groups of six bits.
  have hlead : ∀ base k : Nat, base + k < 256 → (UInt8.ofNat (base + k)).toNat = base + k := by
    intro base k h
    rw [UInt8.toNat_ofNat']
    omega
  have hgroup : ∀ k : Nat, continuation? (UInt8.ofNat (0x80 + k % 64)) = some (k % 64) := fun k =>
    continuation?_ofNat (Nat.mod_lt k (by decide))
  unfold encodeChar
  dsimp only
  split
  · next h₁ =>
    have hbyte : (UInt8.ofNat x.toNat).toNat = x.toNat := by
      rw [UInt8.toNat_ofNat']
      omega
    refine .one ?_
    rw [one?, hbyte, if_pos h₁, Char.ofNat_toNat]
  split
  · next h₁ h₂ =>
    have ha := hlead 0xc0 (x.toNat / 64) (by omega)
    refine .two (one?_eq_none (by omega)) ?_
    have hnumber : (0xc0 + x.toNat / 64 - 0xc0) * 64 + x.toNat % 64 = x.toNat := by omega
    rw [two?, hgroup, ha]
    show (if _ then scalar? 0x80 _ else none) = some x
    rw [if_pos (by omega), hnumber, scalar?_toNat (by omega)]
  split
  · next h₁ h₂ h₃ =>
    have ha := hlead 0xe0 (x.toNat / 4096) (by omega)
    refine .three (one?_eq_none (by omega)) (two?_eq_none (by omega) _) ?_
    have hnumber : (0xe0 + x.toNat / 4096 - 0xe0) * 4096 + x.toNat / 64 % 64 * 64 + x.toNat % 64 =
        x.toNat := by omega
    rw [three?, hgroup, hgroup, ha]
    show (if _ then scalar? 0x800 _ else none) = some x
    rw [if_pos (by omega), hnumber, scalar?_toNat (by omega)]
  · next h₁ h₂ h₃ =>
    have ha := hlead 0xf0 (x.toNat / 262144) (by omega)
    refine .four (one?_eq_none (by omega)) (two?_eq_none (by omega) _)
      (three?_eq_none (by omega) _ _) ?_
    have hnumber : (0xf0 + x.toNat / 262144 - 0xf0) * 262144 + x.toNat / 4096 % 64 * 4096 +
        x.toNat / 64 % 64 * 64 + x.toNat % 64 = x.toNat := by omega
    rw [four?, hgroup, hgroup, hgroup, ha]
    show (if _ then scalar? 0x10000 _ else none) = some x
    rw [if_pos (by omega), hnumber, scalar?_toNat (by omega)]

/-! ### Byte strings -/

/-- A character that is spelled in full is scanned off the front. -/
theorem Spells.scan_append {x : Char} {a : Bytes} (h : Spells x a) (b : Bytes) :
    scan (a ++ b) = push x (scan b) := by
  cases h with
  | one h =>
    simp only [List.cons_append, List.nil_append]
    rw [scan.eq_def]
    simp only [h]
  | two h₁ h =>
    simp only [List.cons_append, List.nil_append]
    rw [scan.eq_def]
    simp only [h₁, h]
  | three h₁ h₂ h =>
    simp only [List.cons_append, List.nil_append]
    rw [scan.eq_def]
    simp only [h₁, h₂, h]
  | four h₁ h₂ h₃ h =>
    simp only [List.cons_append, List.nil_append]
    rw [scan.eq_def]
    simp only [h₁, h₂, h₃, h]

/-- A character that is cut short is left over whole. -/
theorem Spells.scan_cut {x : Char} {a p r : Bytes} (h : Spells x a) (ha : a = p ++ r) (hr : r ≠ []) :
    scan p = ([], p) ∧ p.length ≤ 3 := by
  obtain ⟨y, r, rfl⟩ := List.exists_cons_of_ne_nil hr
  -- What is left of the character tells how many of its bytes are there.
  cases h with
  | one h =>
    rcases p with _ | ⟨a, p⟩ <;> simp_all [scan]
  | two h₁ h =>
    rcases p with _ | ⟨a, _ | ⟨b, p⟩⟩ <;> simp_all [scan]
  | three h₁ h₂ h =>
    rcases p with _ | ⟨a, _ | ⟨b, _ | ⟨c, p⟩⟩⟩ <;> simp_all [scan]
  | four h₁ h₂ h₃ h =>
    rcases p with _ | ⟨a, _ | ⟨b, _ | ⟨c, _ | ⟨d, p⟩⟩⟩⟩ <;> simp_all [scan]

/-- A written text is scanned as a whole. -/
theorem scan_encodeChars (cs : List Char) : scan (encodeChars cs) = (cs, []) := by
  induction cs with
  | nil => rfl
  | cons x cs ih =>
    rw [encodeChars, List.flatMap_cons, (spells_encodeChar x).scan_append]
    show push x (scan (encodeChars cs)) = _
    rw [ih]
    rfl

/-- **A window is scanned to its last whole character.** The at most three bytes that are left
    over hold no whole character. -/
theorem scan_of_prefix {cs : List Char} {p : Bytes} (hp : p <+: encodeChars cs) :
    ∃ front rest left, cs = front ++ rest ∧ p = encodeChars front ++ left ∧
      scan p = (front, left) ∧ scan left = ([], left) ∧ left.length ≤ 3 := by
  induction cs generalizing p with
  | nil =>
    obtain rfl : p = [] := List.prefix_nil.mp hp
    exact ⟨[], [], [], rfl, rfl, rfl, rfl, Nat.zero_le 3⟩
  | cons x cs ih =>
    have hsplit : encodeChars (x :: cs) = encodeChar x ++ encodeChars cs := List.flatMap_cons
    have hx : Spells x (encodeChar x) := spells_encodeChar x
    rcases le_or_gt (encodeChar x).length p.length with hle | hlt
    · -- The character is there as a whole, and the window goes on after it.
      have hfirst : encodeChar x <+: p :=
        List.prefix_of_prefix_length_le (hsplit ▸ List.prefix_append _ _) hp hle
      obtain ⟨q, rfl⟩ := hfirst
      rw [hsplit, List.prefix_append_right_inj] at hp
      obtain ⟨front, rest, left, rfl, rfl, hscan, hleft, hlength⟩ := ih hp
      refine ⟨x :: front, rest, left, rfl, ?_, ?_, hleft, hlength⟩
      · rw [← List.append_assoc]
        rfl
      · rw [hx.scan_append, hscan]
        rfl
    · -- The window ends inside the character.
      have hcut : p <+: encodeChar x :=
        List.prefix_of_prefix_length_le hp (hsplit ▸ List.prefix_append _ _) hlt.le
      obtain ⟨r, hr⟩ := hcut
      have hne : r ≠ [] := by
        rintro rfl
        rw [List.append_nil] at hr
        rw [hr] at hlt
        exact lt_irrefl _ hlt
      obtain ⟨hscan, hlength⟩ := hx.scan_cut hr.symm hne
      exact ⟨[], x :: cs, p, rfl, rfl, hscan, hscan, hlength⟩

/-- A written text that holds no whole character is empty. -/
theorem eq_nil_of_scan {cs : List Char} (h : scan (encodeChars cs) = ([], encodeChars cs)) :
    cs = [] := by
  rw [scan_encodeChars, Prod.mk.injEq] at h
  exact h.1

/-- A written text is read back. -/
theorem decode?_encode (s : String) : decode? (encode s) = some s := by
  rw [decode?, encode, scan_encodeChars]
  exact congrArg some String.ofList_toList

/-- Different texts are written differently. -/
theorem encode_injective : Function.Injective encode := by
  intro s t h
  have hread := decode?_encode s
  rw [h, decode?_encode] at hread
  exact (Option.some.inj hread).symm

end TableVault.Utf8
