import TableVault.Proofs.Cbor.Reads
import TableVault.Proofs.Text.Utf8Scan

namespace TableVault.Cbor

/-!
# Strings are read back

* `reads_textFrom` — the windows of a text are put together again, wherever they end;
* `reads_textString` and `reads_byteString` — texts and byte strings of any length;
* `extendMagnitude_nil` — what becomes of the bytes of a magnitude;
* `reads_magnitude` — the magnitude of a big integer, without its leading zeros.
-/

/-! ### Texts -/

/-- **Windows are put together again.** What is carried over and what is still to be read are the
    rest of the text, and no whole character is carried over. -/
theorem reads_textFrom (fuel : Nat) {carry b : Bytes} {cs : List Char}
    (hcs : carry ++ b = Utf8.encodeChars cs) (hcarry : carry.length ≤ 3)
    (hscan : Utf8.scan carry = ([], carry)) (hfuel : b.length ≤ fuel) :
    Reads (textFrom fuel b.length carry) b cs := by
  induction fuel generalizing carry b cs with
  | zero =>
    obtain rfl : b = [] := List.length_eq_zero_iff.mp (Nat.le_zero.mp hfuel)
    rw [List.append_nil] at hcs
    obtain rfl : cs = [] := Utf8.eq_nil_of_scan (hcs ▸ hscan)
    subst hcs
    exact Reads.pure []
  | succ fuel ih =>
    by_cases hb : b = []
    · -- At the end of the text nothing is carried over.
      subst hb
      rw [List.append_nil] at hcs
      obtain rfl : cs = [] := Utf8.eq_nil_of_scan (hcs ▸ hscan)
      subst hcs
      exact Reads.pure []
    · -- The next window takes at least one byte, and leaves over less than a character.
      have hpositive : 0 < b.length := List.length_pos_iff.mpr hb
      obtain ⟨fresh, later, rfl, hfresh⟩ : ∃ fresh later, b = fresh ++ later ∧
          fresh.length = min b.length (textWindow - carry.length) :=
        ⟨_, _, (List.take_append_drop (min b.length (textWindow - carry.length)) b).symm, by simp⟩
      rw [textWindow] at hfresh
      have hwindow : carry ++ fresh <+: Utf8.encodeChars cs :=
        ⟨later, by rw [List.append_assoc, hcs]⟩
      obtain ⟨front, rest, left, rfl, hfront, hscanned, hleft, hshort⟩ := Utf8.scan_of_prefix hwindow
      have hlater : left ++ later = Utf8.encodeChars rest := by
        have hall : Utf8.encodeChars front ++ (left ++ later) =
            Utf8.encodeChars front ++ Utf8.encodeChars rest := by
          rw [← List.append_assoc, ← hfront, List.append_assoc, hcs, Utf8.encodeChars,
            List.flatMap_append]
          rfl
        exact List.append_cancel_left hall
      have hih : Reads (textFrom fuel later.length left) later rest := by
        refine ih hlater hshort hleft ?_
        rw [List.length_append] at hfuel hfresh hpositive
        omega
      have hrest : (fresh ++ later).length - fresh.length = later.length := by
        rw [List.length_append, Nat.add_sub_cancel_left]
      rw [textFrom, if_neg (by omega), textWindow, ← hfresh]
      refine (Reads.take fresh).bind ?_
      rw [hscanned]
      show Reads (do
        if 3 < left.length then throw .malformed
        return front ++ (← textFrom fuel ((fresh ++ later).length - fresh.length) left)) _ _
      rw [if_neg (by omega), hrest]
      exact hih.map (front ++ ·)

/-- A text of any length is read back. -/
theorem reads_textString (s : String) :
    Reads (textString (some (Utf8.encode s).length)) (Utf8.encode s) s := by
  have hsegment : Reads (textSegment (Utf8.encode s).length) (Utf8.encode s) s.toList :=
    reads_textFrom _ rfl (Nat.zero_le 3) rfl le_rfl
  have h := (hsegment.map (· :: [])).map fun segments => String.ofList segments.reverse.flatten
  have hall : String.ofList [s.toList].reverse.flatten = s := by
    simp
  rwa [hall] at h

/-! ### Byte strings -/

/-- A byte string of any length is read back. -/
theorem reads_byteString (b : Bytes) : Reads (byteString (some b.length)) b b := by
  have h := ((Reads.take b).map (· :: [])).map fun segments => segments.reverse.flatten
  have hall : [b].reverse.flatten = b := by
    simp
  rwa [hall] at h

/-! ### Magnitudes -/

/-- A magnitude is extended by one part after another. -/
theorem extendMagnitude_append (m b c : Bytes) :
    extendMagnitude m (b ++ c) = extendMagnitude m b >>= fun m => extendMagnitude m c := by
  induction b generalizing m with
  | nil => rfl
  | cons x b ih =>
    simp only [List.cons_append, extendMagnitude, ih]
    split
    · rfl
    split
    · rfl
    · rfl

/-- A magnitude that has begun takes every byte that follows, as far as there is room. -/
theorem extendMagnitude_begun {m : Bytes} (b : Bytes) (hm : m ≠ []) (hroom : m.length ≤ magnitudeLimit) :
    extendMagnitude m b =
      if (m ++ b).length ≤ magnitudeLimit then .ok (m ++ b) else .error .mismatch := by
  induction b generalizing m with
  | nil => rw [extendMagnitude, List.append_nil, if_pos hroom]
  | cons x b ih =>
    rw [extendMagnitude, if_neg (by simp [hm])]
    by_cases hfull : m.length = magnitudeLimit
    · have hover : ¬(m ++ x :: b).length ≤ magnitudeLimit := by
        rw [List.length_append, List.length_cons]
        omega
      rw [if_pos hfull, if_neg hover]
    · have hnext : (m ++ [x]).length ≤ magnitudeLimit := by
        rw [List.length_append, List.length_singleton]
        omega
      rw [if_neg hfull, ih (by simp) hnext, List.append_assoc, List.singleton_append]

/-- A magnitude begins with the first byte that is not zero, and is refused if it is too long from
    there on. -/
theorem extendMagnitude_nil (b : Bytes) :
    extendMagnitude [] b =
      if (b.dropWhile (· == 0)).length ≤ magnitudeLimit then .ok (b.dropWhile (· == 0))
      else .error .mismatch := by
  induction b with
  | nil => rfl
  | cons x b ih =>
    by_cases hx : x = 0
    · subst hx
      exact ih
    · have hkept : (x :: b).dropWhile (· == 0) = x :: b := by
        simp [hx]
      rw [extendMagnitude, if_neg (by simp [hx]), if_neg (by decide), hkept]
      exact extendMagnitude_begun b (by simp) (by simp [magnitudeLimit])

/-- A segment of a magnitude is read, however many steps it takes. -/
theorem reads_magnitudeSegment {m piece m' : Bytes} (h : extendMagnitude m piece = .ok m')
    {fuel : Nat} (hfuel : piece.length ≤ fuel) :
    Reads (magnitudeSegment fuel m piece.length) piece m' := by
  have hdone : ∀ {m m' : Bytes}, extendMagnitude m [] = .ok m' → Reads (pure m : Reader Bytes) [] m' := by
    rintro m _ ⟨⟩
    exact Reads.pure m
  induction fuel generalizing m piece with
  | zero =>
    obtain rfl : piece = [] := List.length_eq_zero_iff.mp (by omega)
    exact hdone h
  | succ fuel ih =>
    rw [magnitudeSegment]
    split
    · next hzero =>
      obtain rfl : piece = [] := List.length_eq_zero_iff.mp hzero
      exact hdone h
    · next hpositive =>
      -- What one step takes is extended by the others.
      obtain ⟨front, later, rfl, hfront⟩ : ∃ front later, piece = front ++ later ∧
          front.length = min piece.length magnitudeLimit :=
        ⟨_, _, (List.take_append_drop (min piece.length magnitudeLimit) piece).symm, by simp⟩
      rw [extendMagnitude_append] at h
      cases hstep : extendMagnitude m front with
      | error e =>
        rw [hstep] at h
        cases h
      | ok m₁ =>
        rw [hstep] at h
        have hlimit : 0 < magnitudeLimit := by decide
        rw [← hfront]
        refine (Reads.take front).bind ?_
        rw [hstep, List.length_append, Nat.add_sub_cancel_left]
        rw [List.length_append] at hfuel hpositive hfront
        exact ih h (by omega)

/-- **The magnitude of a big integer is read back without its leading zeros.** -/
theorem reads_magnitude {b : Bytes} (hlength : b.length ≤ magnitudeLimit) :
    Reads (magnitude (some b.length)) b (b.dropWhile (· == 0)) := by
  refine reads_magnitudeSegment ?_ le_rfl
  have hstripped := (List.dropWhile_suffix (l := b) (· == 0)).length_le
  rw [extendMagnitude_nil, if_pos (by omega)]

end TableVault.Cbor
