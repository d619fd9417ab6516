import Mathlib
import TableVault.Text.Utf8

namespace TableVault.Utf8

/-!
# The order of UTF-8

Texts are ordered by the numbers of their characters. This is also the order of their
bytes: a character with a smaller number has smaller bytes, and no character has bytes
that another one begins with.

* `encodeChar_append_lt` — the first character in which two texts differ decides;
* `encode_lt_iff` — texts are ordered as their bytes are.
-/

/-- Byte strings are compared by their first bytes, and by the others if these agree. -/
private theorem cons_lt {a b : UInt8} {as bs : Bytes} :
    a :: as < b :: bs ↔ a.toNat < b.toNat ∨ a.toNat = b.toNat ∧ as < bs := by
  rw [List.cons_lt_cons_iff, UInt8.lt_iff_toNat_lt, UInt8.toNat_inj]

/-- The number of a character. -/
theorem toNat_lt (c : Char) : c.toNat < 0x110000 := by
  have h := c.valid
  rcases h with h | h
  · exact lt_trans h (by decide)
  · exact h.2

/-- **The first difference decides.** Bytes that begin with those of a smaller character
    are smaller, whatever follows. -/
theorem encodeChar_append_lt {c d : Char} (h : c < d) (as bs : Bytes) :
    encodeChar c ++ as < encodeChar d ++ bs := by
  have hlt : c.toNat < d.toNat := h
  have hd := toNat_lt d
  have hdigits : ∀ n : Nat, n / 4096 = n / 64 / 64 ∧ n / 262144 = n / 64 / 64 / 64 := fun n => by
    omega
  unfold encodeChar
  generalize c.toNat = m at hlt
  generalize d.toNat = n at hlt hd
  -- Shorter characters have smaller first bytes; characters of one length are compared
  -- digit by digit in base 64.
  simp only [hdigits]
  split_ifs <;>
    simp only [List.cons_append, cons_lt, UInt8.toNat_ofNat'] <;> omega

/-- A character has at least one byte. -/
private theorem encodeChar_ne_nil (c : Char) : encodeChar c ≠ [] := by
  unfold encodeChar
  simp only
  split_ifs <;> simp

/-- Smaller sequences of characters have smaller bytes. -/
theorem encodeChars_lt {cs ds : List Char} (h : cs < ds) : encodeChars cs < encodeChars ds := by
  induction h with
  | nil =>
    rename_i d ds
    obtain ⟨b, rest, hb⟩ := List.exists_cons_of_ne_nil (encodeChar_ne_nil d)
    show [] < encodeChar d ++ encodeChars ds
    rw [hb]
    exact List.Lex.nil
  | rel h => exact encodeChar_append_lt h _ _
  | cons _ ih => exact List.append_left_lt ih

/-- **Texts are ordered as their bytes are.** -/
theorem encode_lt_iff {s t : String} : encode s < encode t ↔ s < t := by
  constructor
  · intro h
    rcases lt_trichotomy s t with hst | rfl | hts
    · exact hst
    · exact absurd h (List.lt_irrefl _)
    · exact absurd h (List.lt_asymm (encodeChars_lt hts))
  · intro h
    exact encodeChars_lt h

end TableVault.Utf8
