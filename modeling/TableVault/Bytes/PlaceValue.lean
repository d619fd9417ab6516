import Mathlib
import TableVault.Bytes

namespace TableVault.Bytes

/-!
# The place value of bytes

* `ofBigEndian_lt` — a byte string spells a number below `256` to its length;
* `ofBigEndian_bigEndian_mod` / `ofBigEndian_bigEndian` — writing a number in a fixed
  width and reading it back keeps as much of it as fits;
* `bigEndian_ofBigEndian` — a byte string is the number that it spells, in its width.
-/

/-- Every byte string spells a number below `256` to its length. -/
theorem ofBigEndian_lt (b : Bytes) : ofBigEndian b < 256 ^ b.length := by
  induction b using List.reverseRecOn with
  | nil => simp [ofBigEndian]
  | append_singleton b x ih =>
    have hx : x.toNat < 256 := x.toNat_lt
    rw [ofBigEndian_concat, List.length_append, List.length_singleton, pow_succ]
    omega

/-- Writing a number in `width` bytes and reading it back keeps its low bytes. -/
theorem ofBigEndian_bigEndian_mod (width n : Nat) :
    ofBigEndian (bigEndian width n) = n % 256 ^ width := by
  induction width generalizing n with
  | zero => simp [bigEndian, ofBigEndian, Nat.mod_one]
  | succ width ih =>
    have hbyte : (UInt8.ofNat n).toNat = n % 256 := UInt8.toNat_ofNat'
    have hmod : n % 256 ^ (width + 1) = n % 256 + 256 * (n / 256 % 256 ^ width) := by
      rw [pow_succ, mul_comm (256 ^ width), Nat.mod_mul]
    rw [bigEndian, ofBigEndian_concat, ih, hbyte, hmod]
    omega

/-- A number that fits `width` bytes is read back as it was written. -/
theorem ofBigEndian_bigEndian {width n : Nat} (h : n < 256 ^ width) :
    ofBigEndian (bigEndian width n) = n := by
  rw [ofBigEndian_bigEndian_mod, Nat.mod_eq_of_lt h]

/-- A byte string is the number that it spells, written in as many bytes. -/
theorem bigEndian_ofBigEndian (b : Bytes) : bigEndian b.length (ofBigEndian b) = b := by
  induction b using List.reverseRecOn with
  | nil => rfl
  | append_singleton b x ih =>
    have hx : x.toNat < 256 := x.toNat_lt
    have hdiv : (ofBigEndian b * 256 + x.toNat) / 256 = ofBigEndian b := by omega
    have hbyte : UInt8.ofNat (ofBigEndian b * 256 + x.toNat) = x := by
      apply UInt8.toNat_inj.mp
      rw [UInt8.toNat_ofNat']
      omega
    rw [List.length_append, List.length_singleton, bigEndian, ofBigEndian_concat, hdiv, hbyte, ih]

end TableVault.Bytes
