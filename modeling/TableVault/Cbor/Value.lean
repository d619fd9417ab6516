import TableVault.Bytes
import TableVault.Cbor.Double

namespace TableVault.Cbor

/-!
# Dynamic values

* `Value` — everything that can be stored: integers, floats, texts, byte strings,
  booleans, null, arrays, maps and tagged values;
* `Value.ofInt?` / `Value.int?` — the integers among them, from `-2^64` to `2^64 - 1`;
* `Value.negative?` and `Value.magnitude` — how big integers normalise.

A map keeps its pairs in stored order, duplicates included.
-/

/-- A stored value. `negative n` is the integer `-1 - n`. -/
inductive Value where
  | unsigned (n : UInt64)
  | negative (n : UInt64)
  | float (d : Double)
  | text (s : String)
  | bytes (b : Bytes)
  | bool (b : Bool)
  | null
  | array (items : List Value)
  | map (entries : List (Value × Value))
  | tag (number : UInt64) (content : Value)
  deriving Inhabited, Repr

/-- The tag in front of the magnitude `n` of the big integer `n`. -/
def bigPositive : UInt64 := 2

/-- The tag in front of the magnitude `n` of the big integer `-1 - n`. -/
def bigNegative : UInt64 := 3

namespace Value

/-- The value that holds an integer between `-2^64` and `2^64 - 1`. -/
def ofInt? : Int → Option Value
  | .ofNat n => if n < UInt64.size then some (.unsigned (UInt64.ofNat n)) else none
  | .negSucc n => if n < UInt64.size then some (.negative (UInt64.ofNat n)) else none

/-- The integer that a value holds. -/
def int? : Value → Option Int
  | .unsigned n => some (Int.ofNat n.toNat)
  | .negative n => some (Int.negSucc n.toNat)
  | _ => none

/-- The value of a 64-bit signed integer. -/
def ofInt64 (i : Int64) : Value :=
  match i.toInt with
  | .ofNat n => .unsigned (UInt64.ofNat n)
  | .negSucc n => .negative (UInt64.ofNat n)

/-- The value of a big integer: the integer `magnitude`, or `-1 - magnitude` if
    `isNegative`. One that fits 64 bits is a plain integer, any other is tagged over
    the magnitude without leading zeros. -/
def ofMagnitude (isNegative : Bool) (magnitude : Bytes) : Value :=
  let n := Bytes.ofBigEndian magnitude
  if n < UInt64.size then
    if isNegative then .negative (UInt64.ofNat n) else .unsigned (UInt64.ofNat n)
  else .tag (if isNegative then bigNegative else bigPositive)
    (.bytes (magnitude.dropWhile (· == 0)))

/-- The integer that a value was made from is read back from it. -/
theorem int?_of_ofInt? {i : Int} {v : Value} (h : ofInt? i = some v) : v.int? = some i := by
  cases i with
  | ofNat n =>
    simp only [ofInt?] at h
    split at h
    · next hn =>
      cases h
      rw [int?, UInt64.toNat_ofNat', Nat.mod_eq_of_lt hn]
    · cases h
  | negSucc n =>
    simp only [ofInt?] at h
    split at h
    · next hn =>
      cases h
      rw [int?, UInt64.toNat_ofNat', Nat.mod_eq_of_lt hn]
    · cases h

end Value

end TableVault.Cbor
