namespace TableVault

/-!
# Byte strings

Records, keys and encoded values are finite byte strings.

* `Bytes` — a byte string, as a list, so that every consumer is a structural
  recursion on it;
* `Bytes.bigEndian` / `Bytes.ofBigEndian` — a number in a fixed number of bytes,
  most significant byte first, and back;
* `Bytes.xor` — the bytewise exclusive or, as long as the shorter operand;
* `Bytes.foldBlocks` — carries a state through the whole blocks of a byte string;
* `Bytes.words` / `Bytes.wordBytes` — byte strings as big-endian 32-bit words, and back.
-/

/-- A byte string. -/
abbrev Bytes := List UInt8

namespace Bytes

/-- The low `width` bytes of `n`, most significant byte first. -/
def bigEndian : (width n : Nat) → Bytes
  | 0, _ => []
  | width + 1, n => bigEndian width (n / 256) ++ [UInt8.ofNat n]

/-- The number that a byte string spells, most significant byte first. -/
def ofBigEndian (b : Bytes) : Nat :=
  b.foldl (fun n x => n * 256 + x.toNat) 0

/-- Bytewise exclusive or. -/
def xor (a b : Bytes) : Bytes :=
  List.zipWith (· ^^^ ·) a b

/-- Carries a state through the whole blocks of `size` bytes of a byte string. Bytes
    after the last whole block do not count. -/
def foldBlocks {σ : Type} (size : Nat) (step : σ → Bytes → σ) (s : σ) (b : Bytes) : σ :=
  (b.foldl (fun (s, block) x =>
    let block := block ++ [x]
    if block.length = size then (step s block, []) else (s, block)) (s, [])).1

/-- The words of a byte string; bytes after the last whole word do not count. -/
def words : Bytes → List UInt32
  | a :: b :: c :: d :: rest => UInt32.ofNat (ofBigEndian [a, b, c, d]) :: words rest
  | _ => []

/-- The four bytes of a word. -/
def wordBytes (w : UInt32) : Bytes :=
  bigEndian 4 w.toNat

/-- A fixed-width number has that many bytes. -/
@[simp] theorem length_bigEndian (width n : Nat) : (bigEndian width n).length = width := by
  induction width generalizing n with
  | zero => rfl
  | succ width ih => rw [bigEndian, List.length_append, ih, List.length_singleton]

/-- A last byte of a number counts once, and each byte before it 256 times more. -/
theorem ofBigEndian_concat (b : Bytes) (x : UInt8) :
    ofBigEndian (b ++ [x]) = ofBigEndian b * 256 + x.toNat := by
  simp only [ofBigEndian, List.foldl_append, List.foldl_cons, List.foldl_nil]

end Bytes

end TableVault
