import TableVault.Proofs.Cbor.Reads

namespace TableVault.Cbor

/-!
# Floats are read back

A float is written in the shortest width that stands for exactly its bits.

* `Layout.candidate_lt` — a narrow float fits its width;
* `Head.reads_writeFloat` — every float is read back bit by bit, NaNs included;
* `Head.reads_simple` — the simple values.
-/

namespace Layout

/-- An exponent and a mantissa that fit their fields fit them side by side. -/
theorem fields_lt {e m exponent mantissa : Nat} (he : exponent < 2 ^ e) (hm : mantissa < 2 ^ m) :
    exponent <<< m + mantissa < 2 ^ (e + m) := by
  rw [Nat.shiftLeft_eq, pow_add]
  calc exponent * 2 ^ m + mantissa < exponent * 2 ^ m + 2 ^ m := by omega
    _ = (exponent + 1) * 2 ^ m := by rw [Nat.succ_mul]
    _ ≤ 2 ^ e * 2 ^ m := Nat.mul_le_mul_right _ he

/-- **A narrow float fits its width**: one bit for the sign, and its two fields. -/
theorem candidate_lt (f : Layout) (hm : f.mantissaBits ≤ 52) (d : Double) :
    f.candidate d < 2 ^ (1 + (f.exponentBits + f.mantissaBits)) := by
  have hbits : d.bits.toNat < 2 ^ 64 := d.bits.toNat_lt
  have hsign : d.bits.toNat >>> 63 < 2 ^ 1 := by
    rw [Nat.shiftRight_eq_div_pow]
    omega
  have hmantissa : d.bits.toNat % 1 <<< 52 < 2 ^ 52 := Nat.mod_lt _ (by decide)
  have hcut : (d.bits.toNat % 1 <<< 52) >>> (52 - f.mantissaBits) < 2 ^ f.mantissaBits := by
    rw [Nat.shiftRight_eq_div_pow]
    refine Nat.div_lt_of_lt_mul ?_
    rwa [← pow_add, Nat.sub_add_cancel hm]
  have htop : ∀ exponent ≤ f.top, exponent < 2 ^ f.exponentBits := by
    intro exponent hexponent
    have hpositive : 0 < 2 ^ f.exponentBits := by positivity
    rw [top, Nat.shiftLeft_eq, Nat.one_mul] at hexponent
    omega
  unfold candidate
  dsimp only
  split
  · rw [Nat.add_assoc]
    exact fields_lt hsign (fields_lt (htop _ le_rfl) hcut)
  split
  · rw [Nat.add_assoc]
    exact fields_lt hsign (fields_lt (htop _ (min_le_right _ _)) hcut)
  · -- A subnormal mantissa is its leading one and the rest, moved down at least that far.
    next hsmall =>
    refine fields_lt hsign (lt_of_lt_of_le ?_ (Nat.pow_le_pow_right (by decide)
      (Nat.le_add_left f.mantissaBits f.exponentBits)))
    have hshift : 53 - f.mantissaBits ≤
        1076 - f.mantissaBits - f.bias - d.bits.toNat >>> 52 % 1 <<< 11 := by
      omega
    rw [Nat.shiftRight_eq_div_pow]
    refine Nat.div_lt_of_lt_mul ?_
    calc 1 <<< 52 + d.bits.toNat % 1 <<< 52 < 2 ^ 53 := by omega
      _ = 2 ^ (53 - f.mantissaBits) * 2 ^ f.mantissaBits := by rw [← pow_add]; congr 1; omega
      _ ≤ _ := Nat.mul_le_mul_right _ (Nat.pow_le_pow_right (by decide) hshift)

/-- A float that has been narrowed fits its width. -/
theorem narrow?_lt {f : Layout} (hm : f.mantissaBits ≤ 52) {d : Double} {b : Nat}
    (h : f.narrow? d = some b) : b < 2 ^ (1 + (f.exponentBits + f.mantissaBits)) := by
  unfold narrow? at h
  split at h
  · cases h
    exact f.candidate_lt hm d
  · cases h

end Layout

namespace Head

/-- A simple value is read back. -/
theorem reads_simple {n : Nat} (hn : n < 24) :
    Reads read [initial 7 n] (.simple (UInt8.ofNat n)) := by
  refine reads_initial (n := n) (by omega) (by omega) ?_ ?_
  · rw [argument, if_pos hn]
    exact Reads.pure _
  · show Except.ok (special n n) = _
    rw [special, if_neg (by omega), if_neg (by omega), if_neg (by omega)]

/-- **Every float is read back bit by bit.** -/
theorem reads_writeFloat (d : Double) : Reads read (writeFloat d) (.float d) := by
  unfold writeFloat
  split
  · next h hnarrow =>
    have hwiden : Layout.half.widen h = d := Layout.widen_of_narrow? hnarrow
    have hfits : h < 256 ^ 2 := Layout.narrow?_lt (by decide) hnarrow
    refine reads_initial (n := h) (by omega) (by omega) (reads_argument 1 (by omega) rfl hfits) ?_
    show Except.ok (Head.float (Layout.half.widen h)) = _
    rw [hwiden]
  · split
    · next s hnarrow =>
      have hwiden : Layout.single.widen s = d := Layout.widen_of_narrow? hnarrow
      have hfits : s < 256 ^ 4 := Layout.narrow?_lt (by decide) hnarrow
      refine reads_initial (n := s) (by omega) (by omega) (reads_argument 2 (by omega) rfl hfits) ?_
      show Except.ok (Head.float (Layout.single.widen s)) = _
      rw [hwiden]
    · have hfits : d.bits.toNat < 256 ^ 8 := d.bits.toNat_lt
      refine reads_initial (n := d.bits.toNat) (by omega) (by omega)
        (reads_argument 3 (by omega) rfl hfits) ?_
      show Except.ok (Head.float ⟨UInt64.ofNat d.bits.toNat⟩) = _
      rw [UInt64.ofNat_toNat]

end Head

end TableVault.Cbor
