import Mathlib
import TableVault.Record.Encoder

namespace TableVault

/-!
# What is encrypted can be decrypted

* `Cfb.decryptFrom_encryptFrom` and `Cfb.encryptFrom_decryptFrom` — both directions of the
  feedback go through the same registers;
* `Cfb.length_decryptFrom` and `Cfb.length_encryptFrom` — what comes out is as long as what goes
  in;
* `Cfb.decryptFrom_append` and `Cfb.encryptFrom_append` — the front of a text is decrypted and
  encrypted without what follows it;
* `Cfb.encrypt_block` — block by block, each ciphertext takes the place of the initial vector;
* `ValueCipher.decrypt_encrypt` and `Encoder.decrypts` — payloads and records are
  decrypted by the key that they were encrypted under;
* `ValueCipher.causal_bijection` — the cipher of values in both directions.
-/

namespace Crypto

/-- Both directions go through the same registers, since both feed back the ciphertext. -/
theorem Cfb.decryptFrom_encryptFrom (image : Bytes → Bytes) (r : Cfb.Register) (plaintext : Bytes) :
    decryptFrom image r (encryptFrom image r plaintext) = plaintext := by
  induction plaintext generalizing r with
  | nil => rfl
  | cons p rest ih =>
    show (p ^^^ r.mask ^^^ r.mask) ::
      decryptFrom image (r.feed image (p ^^^ r.mask)) (encryptFrom image _ rest) = p :: rest
    rw [ih, UInt8.xor_assoc, UInt8.xor_self, UInt8.xor_zero]

/-- A plaintext is as long as its ciphertext. -/
theorem Cfb.length_decryptFrom (image : Bytes → Bytes) (r : Cfb.Register) (ciphertext : Bytes) :
    (decryptFrom image r ciphertext).length = ciphertext.length := by
  induction ciphertext generalizing r with
  | nil => rfl
  | cons c rest ih => exact congrArg (· + 1) (ih (r.feed image c))

/-- The front of a ciphertext is decrypted without what follows it, and the rest from the register
    that the front has been fed to. -/
theorem Cfb.decryptFrom_append (image : Bytes → Bytes) (r : Cfb.Register) (front rest : Bytes) :
    decryptFrom image r (front ++ rest) =
      decryptFrom image r front ++ decryptFrom image (front.foldl (·.feed image) r) rest := by
  induction front generalizing r with
  | nil => rfl
  | cons c front ih => exact congrArg ((c ^^^ r.mask) :: ·) (ih (r.feed image c))

/-- Encrypting goes through the registers that decrypting has gone through. -/
theorem Cfb.encryptFrom_decryptFrom (image : Bytes → Bytes) (r : Cfb.Register)
    (ciphertext : Bytes) : encryptFrom image r (decryptFrom image r ciphertext) = ciphertext := by
  induction ciphertext generalizing r with
  | nil => rfl
  | cons c rest ih =>
    have hback : c ^^^ r.mask ^^^ r.mask = c := by
      rw [UInt8.xor_assoc, UInt8.xor_self, UInt8.xor_zero]
    show (c ^^^ r.mask ^^^ r.mask) :: encryptFrom image (r.feed image (c ^^^ r.mask ^^^ r.mask))
      (decryptFrom image (r.feed image c) rest) = c :: rest
    rw [hback, ih]

/-- A ciphertext is as long as its plaintext. -/
theorem Cfb.length_encryptFrom (image : Bytes → Bytes) (r : Cfb.Register) (plaintext : Bytes) :
    (encryptFrom image r plaintext).length = plaintext.length := by
  rw [← length_decryptFrom image r, decryptFrom_encryptFrom]

/-- The front of a plaintext is encrypted without what follows it, and the rest from the register
    that the ciphertext of the front has been fed to. -/
theorem Cfb.encryptFrom_append (image : Bytes → Bytes) (r : Cfb.Register) (front rest : Bytes) :
    encryptFrom image r (front ++ rest) = encryptFrom image r front ++
      encryptFrom image ((encryptFrom image r front).foldl (·.feed image) r) rest := by
  induction front generalizing r with
  | nil => rfl
  | cons p front ih =>
    exact congrArg ((p ^^^ r.mask) :: ·) (ih (r.feed image (p ^^^ r.mask)))

/-- A byte that fills its block makes the vector of the next one. -/
theorem Cfb.feed_eq (image : Bytes → Bytes) (pad fed : Bytes) (c : UInt8) :
    Register.feed image ⟨pad, fed⟩ c =
      if fed.length + 1 = blockSize then .start image (fed ++ [c]) else ⟨pad, fed ++ [c]⟩ := by
  rw [← List.length_singleton (a := c), ← List.length_append]
  rfl

/-- Up to the end of a block the pad is added, from where it has been used up to. -/
theorem Cfb.encryptFrom_within (image : Bytes → Bytes) {pad : Bytes} (hpad : pad.length = blockSize)
    (fed plaintext : Bytes) (h : fed.length + plaintext.length ≤ blockSize) :
    encryptFrom image ⟨pad, fed⟩ plaintext = Bytes.xor plaintext (pad.drop fed.length) := by
  induction plaintext generalizing fed with
  | nil => rfl
  | cons p rest ih =>
    rw [List.length_cons] at h
    have hfed : fed.length < pad.length := by omega
    have hmask : Register.mask ⟨pad, fed⟩ = pad[fed.length] := by
      rw [Register.mask, List.getD_eq_getElem?_getD, List.getElem?_eq_getElem hfed, Option.getD_some]
    rw [List.drop_eq_getElem_cons hfed, encryptFrom, hmask]
    refine congrArg ((p ^^^ pad[fed.length]) :: ·) ?_
    -- A block that is full has nothing behind it here.
    cases rest with
    | nil => rfl
    | cons q rest =>
      rw [List.length_cons] at h
      have hlength : (fed ++ [p ^^^ pad[fed.length]]).length = fed.length + 1 := List.length_append
      have hrest := ih (fed ++ [p ^^^ pad[fed.length]]) (by rw [hlength, List.length_cons]; omega)
      rw [feed_eq, if_neg (by omega), hrest, hlength]
      rfl

/-- Behind a whole block stands the register of a text of its own, whose initial vector is the
    ciphertext of the block. -/
theorem Cfb.foldl_feed (image : Bytes → Bytes) (pad fed : Bytes) {block : Bytes} (hblock : block ≠ [])
    (h : fed.length + block.length = blockSize) :
    block.foldl (·.feed image) (⟨pad, fed⟩ : Register) = .start image (fed ++ block) := by
  induction block generalizing fed with
  | nil => exact absurd rfl hblock
  | cons c rest ih =>
    rw [List.length_cons] at h
    rw [List.foldl_cons, feed_eq]
    by_cases hrest : rest = []
    · subst hrest
      rw [if_pos (by simpa using h), List.foldl_nil]
    · have hlength := List.length_pos_of_ne_nil hrest
      have hconcat : (fed ++ [c]).length = fed.length + 1 := List.length_append
      rw [if_neg (by omega), ih (fed ++ [c]) hrest (by omega), List.append_assoc,
        List.singleton_append]

/-- **The chain of blocks.** A whole block is added to the image of the vector in front of it, and
    the sum is the vector in front of what follows. -/
theorem Cfb.encrypt_block (image : Bytes → Bytes) {iv block : Bytes}
    (himage : (image iv).length = blockSize) (hblock : block.length = blockSize) (rest : Bytes) :
    encrypt image iv (block ++ rest) =
      Bytes.xor block (image iv) ++ encrypt image (Bytes.xor block (image iv)) rest := by
  have hfirst : encryptFrom image (.start image iv) block = Bytes.xor block (image iv) :=
    encryptFrom_within image himage [] block (by simp [hblock])
  have hlength := length_encryptFrom image (.start image iv) block
  rw [hfirst, hblock] at hlength
  have hne : Bytes.xor block (image iv) ≠ [] := by
    rintro hnil
    rw [hnil] at hlength
    cases hlength
  rw [encrypt, encryptFrom_append, hfirst, Register.start, foldl_feed image _ [] hne (by simpa using hlength)]
  rfl

/-- A payload is as long as its ciphertext. -/
theorem ValueCipher.length_decrypt (c : ValueCipher) (ciphertext : Bytes) :
    (c.decrypt ciphertext).length = ciphertext.length :=
  Cfb.length_decryptFrom _ _ ciphertext

/-- A ciphertext is as long as its payload. -/
theorem ValueCipher.length_encrypt (c : ValueCipher) (plaintext : Bytes) :
    (c.encrypt plaintext).length = plaintext.length :=
  Cfb.length_encryptFrom _ _ plaintext

/-- A payload is decrypted by the cipher that encrypted it. -/
theorem ValueCipher.decrypt_encrypt (c : ValueCipher) (plaintext : Bytes) :
    c.decrypt (c.encrypt plaintext) = plaintext :=
  Cfb.decryptFrom_encryptFrom _ _ plaintext

/-- A ciphertext that is cut off is decrypted to a payload that is cut off. -/
theorem ValueCipher.decrypt_append (c : ValueCipher) (front rest : Bytes) :
    ∃ later, c.decrypt (front ++ rest) = c.decrypt front ++ later ∧ later.length = rest.length :=
  ⟨_, Cfb.decryptFrom_append _ _ front rest, Cfb.length_decryptFrom _ _ rest⟩

/-- **The cipher of values is a causal bijection that keeps lengths.** Key and initial vector of
    every master key have the sizes that the block cipher asks for. Decrypting and encrypting undo
    each other on all byte strings, what comes out is as long as what goes in, and what comes out
    for the front of a text does not depend on the rest. -/
theorem ValueCipher.causal_bijection (master : MasterKey) :
    (ofMaster master).key.length = keySize ∧ (ofMaster master).iv.length = ivSize ∧
      ∀ x y : Bytes,
        (ofMaster master).decrypt ((ofMaster master).encrypt x) = x ∧
        (ofMaster master).encrypt ((ofMaster master).decrypt x) = x ∧
        ((ofMaster master).encrypt x).length = x.length ∧
        ((ofMaster master).decrypt x).length = x.length ∧
        (ofMaster master).encrypt x <+: (ofMaster master).encrypt (x ++ y) ∧
        (ofMaster master).decrypt x <+: (ofMaster master).decrypt (x ++ y) := by
  refine ⟨Sha256.length_hash _, ?_, fun x y => ⟨decrypt_encrypt _ x, ?_, length_encrypt _ x,
    length_decrypt _ x, ?_, ?_⟩⟩
  · rw [ofMaster, List.length_take, Sha256.length_hash]
    rfl
  · exact Cfb.encryptFrom_decryptFrom _ _ x
  · exact ⟨_, (Cfb.encryptFrom_append _ _ x y).symm⟩
  · exact ⟨_, (Cfb.decryptFrom_append _ _ x y).symm⟩

end Crypto

namespace Record

/-- A record that has been encrypted splits into a ciphertext that the same encoder
    decrypts. -/
theorem Encoder.decrypts (e : Encoder) {v : Cbor.Value} {record : Bytes}
    (h : e.encode (.value v) true = .ok record) :
    ∃ ciphertext, split record = .ok (some (.encrypted, ciphertext)) ∧
      e.payload .encrypted ciphertext = v.encode := by
  obtain rfl : frame .encrypted (e.cipher.encrypt v.encode) = record := Except.ok.inj h
  exact ⟨_, split_frame _ _, Crypto.ValueCipher.decrypt_encrypt _ _⟩

/-- An encrypted record is one that was asked to be encrypted, of a value. -/
theorem Encoder.encrypted_of_encode {e : Encoder} {content : Content} {encrypt : Bool}
    {record : Bytes} (h : e.encode content encrypt = .ok record)
    (hrecord : isEncrypted record = true) : encrypt = true ∧ ∃ v, content = .value v := by
  cases content with
  | unwritable reason => cases h
  | value v =>
    cases encrypt with
    | true => exact ⟨rfl, v, rfl⟩
    | false =>
      obtain rfl : frame .plain v.encode = record := Except.ok.inj h
      cases hrecord

end Record

end TableVault
