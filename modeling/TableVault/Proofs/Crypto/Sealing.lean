import Mathlib
import TableVault.Crypto.Sealer

namespace TableVault

/-!
# What is sealed can be unsealed

* `Bytes.xor_xor` — adding a byte string twice changes nothing;
* `Gcm.crypt_crypt` and `Gcm.decrypt_encrypt` — the key stream is added twice, and the
  tag of a ciphertext is that of what follows it;
* `Sealer.unsealKey_sealKey` — a sealed master key is unsealed under the same padlock and
  salt, and under others as far as its ciphertext is decrypted
  (`Sealer.unsealKey_sealKey_eq`);
* `Sealer.eq_sealKey_of_unsealKey` — nothing else is unsealed to that key under its nonce;
* `Sealer.unsealing_inverts_sealing` — both directions, and what a change to the tag does.
-/

namespace Bytes

/-- A sum is as long as the shorter operand. -/
theorem length_xor (a b : Bytes) : (xor a b).length = min a.length b.length :=
  List.length_zipWith

/-- Adding a byte string twice changes nothing. -/
theorem xor_xor {a b : Bytes} (h : a.length ≤ b.length) : xor (xor a b) b = a := by
  induction a generalizing b with
  | nil => rfl
  | cons x a ih =>
    cases b with
    | nil => simp at h
    | cons y b =>
      have hrest : a.length ≤ b.length := by simpa using h
      show (x ^^^ y ^^^ y) :: xor (xor a b) b = x :: a
      rw [ih hrest, UInt8.xor_assoc, UInt8.xor_self, UInt8.xor_zero]

end Bytes

namespace Crypto

/-! ### Block images -/

namespace Aes

/-- There are round keys for every key. -/
theorem keysFrom_ne_nil (s t : Block) (constants : List UInt8) : keysFrom s t constants ≠ [] := by
  cases constants <;> simp [keysFrom]

/-- The image of a block has sixteen bytes. -/
theorem length_encryptBlock (key block : Bytes) :
    (encryptBlock (expandKey key) block).length = Gcm.blockSize := by
  obtain ⟨k, ks, hkeys⟩ := List.exists_cons_of_ne_nil
    (keysFrom_ne_nil (.ofBytes key) (.ofBytes (key.drop 16)) [1, 2, 4, 8, 16, 32, 64])
  rw [expandKey, hkeys]
  simp [encryptBlock, Block.toBytes, Bytes.wordBytes, Gcm.blockSize]

end Aes

/-! ### The mode -/

namespace Gcm

variable {image : Bytes → Bytes} (himage : ∀ block, (image block).length = blockSize)

include himage

/-- The key stream has as many whole blocks as were asked for. -/
theorem length_keyStream (nonce : Bytes) (blocks n : Nat) :
    (keyStream image nonce blocks n).length = blockSize * blocks := by
  induction blocks generalizing n with
  | zero => rfl
  | succ blocks ih =>
    rw [keyStream, List.length_append, himage, ih, Nat.mul_succ, Nat.add_comm]

/-- The key stream is long enough for its text. -/
theorem length_le_keyStream (nonce text : Bytes) :
    text.length ≤ (keyStream image nonce ((text.length + 15) / 16) 2).length := by
  rw [length_keyStream himage, blockSize]
  omega

/-- A text keeps its length. -/
theorem length_crypt (nonce text : Bytes) : (crypt image nonce text).length = text.length := by
  rw [crypt, Bytes.length_xor, min_eq_left (length_le_keyStream himage nonce text)]

/-- Adding the key stream twice changes nothing. -/
theorem crypt_crypt (nonce text : Bytes) : crypt image nonce (crypt image nonce text) = text := by
  have hlength := length_crypt himage nonce text
  rw [crypt, hlength, crypt, Bytes.xor_xor (length_le_keyStream himage nonce text)]

/-- A tag has sixteen bytes. -/
theorem length_tag (nonce ciphertext : Bytes) : (tag image nonce ciphertext).length = tagSize := by
  simp [tag, Bytes.length_xor, ghash, himage, blockSize, tagSize]

/-- **What is encrypted can be decrypted.** -/
theorem decrypt_encrypt (nonce plaintext : Bytes) :
    decrypt? image nonce (encrypt image nonce plaintext) = some plaintext := by
  -- The tag has a fixed length, so it is told apart from the ciphertext in front of it.
  have htag := length_tag himage nonce (crypt image nonce plaintext)
  have hlength : (encrypt image nonce plaintext).length - tagSize =
      (crypt image nonce plaintext).length := by
    rw [encrypt, List.length_append, htag, Nat.add_sub_cancel]
  rw [decrypt?, hlength, encrypt, List.take_left, List.drop_left, if_pos rfl, crypt_crypt himage]

end Gcm

/-! ### Sealed keys -/

namespace Sealer

/-- The image of a block under a sealing key has sixteen bytes. -/
theorem length_image (s : Sealer) (block : Bytes) : (s.image block).length = Gcm.blockSize :=
  Aes.length_encryptBlock s.key block

/-- A sealed key is its nonce, the ciphertext of the key and a tag. -/
theorem length_sealKey (s : Sealer) (nonce : Bytes) (master : MasterKey) :
    (s.sealKey nonce master).length = nonce.length + (keySize + tagSize) := by
  rw [sealKey, List.length_append, Gcm.encrypt, List.length_append, Gcm.length_tag s.length_image,
    Gcm.length_crypt s.length_image, master.length_eq, tagSize]

/-- Unsealing under any key decrypts what was encrypted under the sealing one. -/
theorem unsealKey_sealKey_eq (s other : Sealer) {nonce : Bytes} (h : nonce.length = nonceSize)
    (master : MasterKey) : other.unsealKey (s.sealKey nonce master) =
      (Gcm.decrypt? other.image nonce (Gcm.encrypt s.image nonce master.bytes)).elim
        (.error .badPadlock) MasterKey.ofBytes := by
  have hlength : ¬ (s.sealKey nonce master).length < nonceSize + tagSize := by
    rw [length_sealKey, h]
    omega
  have htake : (s.sealKey nonce master).take nonceSize = nonce := by
    rw [sealKey, ← h, List.take_left]
  have hdrop : (s.sealKey nonce master).drop nonceSize = Gcm.encrypt s.image nonce master.bytes := by
    rw [sealKey, ← h, List.drop_left]
  rw [unsealKey, if_neg hlength, htake, hdrop]
  cases Gcm.decrypt? other.image nonce (Gcm.encrypt s.image nonce master.bytes) <;> rfl

/-- **What is sealed can be unsealed.** -/
theorem unsealKey_sealKey (s : Sealer) {nonce : Bytes} (h : nonce.length = nonceSize)
    (master : MasterKey) : s.unsealKey (s.sealKey nonce master) = .ok master := by
  rw [unsealKey_sealKey_eq s s h, Gcm.decrypt_encrypt s.length_image, Option.elim_some,
    MasterKey.ofBytes_bytes]

/-! ### The parts of a sealed key -/

/-- What is long enough is a nonce, a ciphertext and a tag. -/
theorem exists_parts {sealed : Bytes} (h : ¬ sealed.length < 28) :
    ∃ nonce ciphertext tag : Bytes, nonce.length = 12 ∧ tag.length = 16 ∧
      sealed = nonce ++ ciphertext ++ tag := by
  refine ⟨sealed.take 12, (sealed.drop 12).take (sealed.length - 28),
    sealed.drop (sealed.length - 16), ?_, ?_, ?_⟩
  · rw [List.length_take]
    omega
  · rw [List.length_drop]
    omega
  · have htail : sealed.drop (sealed.length - 16) = (sealed.drop 12).drop (sealed.length - 28) := by
      rw [List.drop_drop]
      congr 1
      omega
    rw [List.append_assoc, htail, List.take_append_drop, List.take_append_drop]

section Parts

variable (s : Sealer) {nonce ciphertext tag : Bytes} (hnonce : nonce.length = 12)
  (htag : tag.length = 16)

include hnonce htag

/-- A sealed key is unsealed by its parts: the tag is looked at first. -/
theorem unsealKey_append : s.unsealKey (nonce ++ ciphertext ++ tag) =
    if tag = Gcm.tag s.image nonce ciphertext then
      MasterKey.ofBytes (Gcm.crypt s.image nonce ciphertext)
    else .error .badPadlock := by
  have hlength : ¬ (nonce ++ ciphertext ++ tag).length < nonceSize + tagSize := by
    show ¬ _ < 28
    simp only [List.length_append, hnonce, htag]
    omega
  have htake : (nonce ++ ciphertext ++ tag).take nonceSize = nonce := by
    rw [List.append_assoc]
    exact List.take_left' hnonce
  have hdrop : (nonce ++ ciphertext ++ tag).drop nonceSize = ciphertext ++ tag := by
    rw [List.append_assoc]
    exact List.drop_left' hnonce
  have hend : (ciphertext ++ tag).length - Gcm.tagSize = ciphertext.length := by
    rw [List.length_append, htag]
    exact Nat.add_sub_cancel ..
  rw [unsealKey, if_neg hlength, htake, hdrop, Gcm.decrypt?, hend, List.take_left, List.drop_left]
  by_cases hforged : tag = Gcm.tag s.image nonce ciphertext
  · rw [if_pos hforged, if_pos hforged]
  · rw [if_neg hforged, if_neg hforged]

/-- What is unsealed has the tag of its ciphertext, and this is the ciphertext of the key. -/
theorem parts_of_unsealKey {master : MasterKey}
    (h : s.unsealKey (nonce ++ ciphertext ++ tag) = .ok master) :
    tag = Gcm.tag s.image nonce ciphertext ∧ ciphertext = Gcm.crypt s.image nonce master.bytes := by
  rw [s.unsealKey_append hnonce htag] at h
  split at h
  · next hright =>
    refine ⟨hright, ?_⟩
    unfold MasterKey.ofBytes at h
    split at h
    · cases h
      exact (Gcm.crypt_crypt s.length_image nonce ciphertext).symm
    · cases h
  · cases h

end Parts

/-- What is unsealed is long enough for its parts. -/
theorem not_short_of_unsealKey {s : Sealer} {sealed : Bytes} {master : MasterKey}
    (h : s.unsealKey sealed = .ok master) : ¬ sealed.length < 28 := by
  intro hshort
  have hrefused : s.unsealKey sealed = .error (.invalidLockState .sealedTooShort) := if_pos hshort
  rw [hrefused] at h
  cases h

/-- **Nothing is unsealed but what has been sealed**: it is the sealing of its key under its own
    nonce. -/
theorem eq_sealKey_of_unsealKey {s : Sealer} {sealed : Bytes} {master : MasterKey}
    (h : s.unsealKey sealed = .ok master) : sealed = s.sealKey (sealed.take 12) master := by
  obtain ⟨nonce, ciphertext, tag, hnonce, htag, rfl⟩ := exists_parts (not_short_of_unsealKey h)
  obtain ⟨hright, hcipher⟩ := s.parts_of_unsealKey hnonce htag h
  have hfront : (nonce ++ ciphertext ++ tag).take 12 = nonce := by
    rw [List.append_assoc]
    exact List.take_left' hnonce
  rw [hfront, sealKey, Gcm.encrypt, ← hcipher, ← hright, List.append_assoc]

/-- **A changed tag is found out.** -/
theorem unsealKey_of_changed {s : Sealer} {sealed changed : Bytes} {master : MasterKey}
    (h : s.unsealKey sealed = .ok master) (hlength : changed.length = sealed.length)
    (hfront : changed.take (sealed.length - 16) = sealed.take (sealed.length - 16))
    (hchanged : changed ≠ sealed) : s.unsealKey changed = .error .badPadlock := by
  obtain ⟨nonce, ciphertext, tag, hnonce, htag, rfl⟩ := exists_parts (not_short_of_unsealKey h)
  obtain ⟨hright, -⟩ := s.parts_of_unsealKey hnonce htag h
  have hcut : (nonce ++ ciphertext ++ tag).length - 16 = (nonce ++ ciphertext).length := by
    rw [List.length_append, htag, Nat.add_sub_cancel]
  rw [hcut, List.take_left] at hfront
  -- Nonce and ciphertext are still there, so the tag is what has been changed.
  have hkept := List.take_append_drop (nonce ++ ciphertext).length changed
  rw [hfront] at hkept
  have htag' : (changed.drop (nonce ++ ciphertext).length).length = 16 := by
    rw [List.length_drop, hlength, ← List.length_drop, List.drop_left, htag]
  have hwrong : changed.drop (nonce ++ ciphertext).length ≠ Gcm.tag s.image nonce ciphertext := by
    intro hsame
    rw [hsame, ← hright] at hkept
    exact hchanged hkept.symm
  rw [← hkept, s.unsealKey_append hnonce htag', if_neg hwrong]

/-- **Sealing and unsealing undo each other.** A master key that is sealed under a nonce of twelve
    bytes makes sixty bytes that begin with the nonce, and is unsealed under the same padlock and
    salt. What is unsealed to a key, under any sealer, is the sealing of that key under its own
    first twelve bytes. So nothing can be changed in its last sixteen bytes without the padlock
    being told to be wrong. -/
theorem unsealing_inverts_sealing :
    (∀ (padlock salt nonce : Bytes) (master : MasterKey), nonce.length = 12 →
      ((derive padlock salt).sealKey nonce master).length = 60 ∧
      nonce <+: (derive padlock salt).sealKey nonce master ∧
      (derive padlock salt).unsealKey ((derive padlock salt).sealKey nonce master) = .ok master) ∧
    ∀ (s : Sealer) (sealed : Bytes) (master : MasterKey), s.unsealKey sealed = .ok master →
      sealed = s.sealKey (sealed.take 12) master ∧
      ∀ changed : Bytes, changed.length = sealed.length →
        changed.take (sealed.length - 16) = sealed.take (sealed.length - 16) →
        changed ≠ sealed → s.unsealKey changed = .error .badPadlock := by
  constructor
  · intro padlock salt nonce master hnonce
    refine ⟨?_, List.prefix_append nonce _, unsealKey_sealKey _ hnonce master⟩
    rw [length_sealKey, hnonce]
    rfl
  · intro s sealed master h
    refine ⟨eq_sealKey_of_unsealKey h, ?_⟩
    intro changed hlength hfront hchanged
    exact unsealKey_of_changed h hlength hfront hchanged

/-- A key that is sealed under a padlock of one byte and no salt is not unsealed when its last byte
    has been counted up. -/
theorem unsealing_inverts_sealing_last_byte :
    let s := derive [7] []
    let sealed := s.sealKey (.replicate 12 0) ⟨.replicate 32 5, rfl⟩
    s.unsealKey sealed = .ok ⟨.replicate 32 5, rfl⟩ ∧
      s.unsealKey (sealed.set 59 (sealed.getD 59 0 + 1)) = .error .badPadlock := by
  intro s sealed
  obtain ⟨hlength, -, hopened⟩ :=
    unsealing_inverts_sealing.1 [7] [] (.replicate 12 0) ⟨.replicate 32 5, rfl⟩ rfl
  refine ⟨hopened, ?_⟩
  apply (unsealing_inverts_sealing.2 s sealed _ hopened).2
  · exact List.length_set
  · exact List.take_set_of_le (by rw [hlength]; omega)
  · intro hsame
    have hlast : (sealed.set 59 (sealed.getD 59 0 + 1)).getD 59 0 = sealed.getD 59 0 :=
      congrArg (·.getD 59 0) hsame
    rw [List.getD_eq_getElem?_getD, List.getElem?_set_self (by rw [hlength]; omega)] at hlast
    simp at hlast

end Sealer

end Crypto

end TableVault
