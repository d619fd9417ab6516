import TableVault.Bytes

namespace TableVault.Hex

/-!
# Hexadecimal text

* `encode` — two lower-case digits a byte;
* `decode?` — accepts digits of either case, two a byte, and nothing else.
-/

/-- The digit of a value below sixteen, in lower case. -/
def digit (n : Nat) : Char :=
  if n < 10 then Char.ofNat (48 + n) else Char.ofNat (87 + n)

/-- The value of a digit, in either case. -/
def value? (c : Char) : Option Nat :=
  if '0' ≤ c ∧ c ≤ '9' then some (c.toNat - 48)
  else if 'a' ≤ c ∧ c ≤ 'f' then some (c.toNat - 87)
  else if 'A' ≤ c ∧ c ≤ 'F' then some (c.toNat - 55)
  else none

/-- The two digits of a byte. -/
def digits (b : UInt8) : List Char :=
  [digit (b.toNat / 16), digit (b.toNat % 16)]

/-- The hexadecimal text of a byte string. -/
def encode (b : Bytes) : String :=
  String.ofList (b.flatMap digits)

/-- The bytes that pairs of digits spell. -/
def ofDigits? : List Char → Option Bytes
  | [] => some []
  | [_] => none
  | c :: d :: rest => do
    let hi ← value? c
    let lo ← value? d
    let b ← ofDigits? rest
    return UInt8.ofNat (16 * hi + lo) :: b

/-- The byte string that a hexadecimal text spells, if it is one. -/
def decode? (s : String) : Option Bytes :=
  ofDigits? s.toList

/-- The two digits of a byte spell that byte. -/
theorem value?_digits (b : UInt8) :
    value? (digit (b.toNat / 16)) = some (b.toNat / 16) ∧
      value? (digit (b.toNat % 16)) = some (b.toNat % 16) := by
  have key : ∀ n : Fin 16, value? (digit n.val) = some n.val := by decide
  have hb : b.toNat < 256 := b.toNat_lt
  exact ⟨key ⟨b.toNat / 16, by omega⟩, key ⟨b.toNat % 16, by omega⟩⟩

/-- Reading the digits of a byte string gives it back. -/
theorem ofDigits?_flatMap_digits (b : Bytes) : ofDigits? (b.flatMap digits) = some b := by
  induction b with
  | nil => rfl
  | cons x b ih =>
    obtain ⟨hi, lo⟩ := value?_digits x
    have hx : 16 * (x.toNat / 16) + x.toNat % 16 = x.toNat := Nat.div_add_mod _ _
    simp only [List.flatMap_cons, digits, List.cons_append, List.nil_append, ofDigits?, hi, lo, ih,
      Option.pure_def, Option.bind_eq_bind, Option.bind_some, hx, UInt8.ofNat_toNat]

/-- Every byte string is read back from its hexadecimal text. -/
@[simp] theorem decode?_encode (b : Bytes) : decode? (encode b) = some b := by
  simp [decode?, encode, ofDigits?_flatMap_digits]

end TableVault.Hex
