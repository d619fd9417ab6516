namespace TableVault.Cbor

/-!
# Floating-point numbers by their bits

A stored float is an IEEE double, kept as its 64 bits so that signed zeros,
infinities and the payloads of NaNs stay apart.

* `Double` — the 64 bits;
* `Layout` — a narrower binary format, by its field widths;
* `Layout.widen` — the double that a narrow float stands for; a signalling NaN
  becomes quiet, every other bit is kept;
* `Layout.narrow?` — the narrow float that widens to a given double, if one does;
  the answer is checked by widening it again, so nothing is ever rounded.
-/

/-- An IEEE double, by its bits. -/
structure Double where
  bits : UInt64
  deriving DecidableEq, Repr, Inhabited

namespace Double

/-- A NaN has all exponent bits set and a non-zero mantissa. -/
def isNaN (d : Double) : Bool :=
  d.bits >>> 52 &&& 0x7ff == 0x7ff && d.bits &&& 0xfffffffffffff != 0

/-- The quiet NaN with an empty payload. -/
def quietNaN : Double := ⟨0x7ff8000000000000⟩

/-- A double put together from sign, biased exponent and mantissa. -/
def ofFields (sign exponent mantissa : Nat) : Double :=
  ⟨UInt64.ofNat (sign <<< 63 + exponent <<< 52 + mantissa)⟩

end Double

/-- The field widths of a binary floating-point format. -/
structure Layout where
  exponentBits : Nat
  mantissaBits : Nat

namespace Layout

/-- Half precision: 5 exponent bits and 10 mantissa bits. -/
def half : Layout := ⟨5, 10⟩

/-- Single precision: 8 exponent bits and 23 mantissa bits. -/
def single : Layout := ⟨8, 23⟩

/-- The offset of the exponent field. -/
def bias (f : Layout) : Nat := 1 <<< (f.exponentBits - 1) - 1

/-- The largest exponent field, that of infinities and NaNs. -/
def top (f : Layout) : Nat := 1 <<< f.exponentBits - 1

/-- The double that the narrow float with bits `b` stands for. -/
def widen (f : Layout) (b : Nat) : Double :=
  let sign := b >>> (f.exponentBits + f.mantissaBits) % 2
  let exponent := b >>> f.mantissaBits % 1 <<< f.exponentBits
  let mantissa := b % 1 <<< f.mantissaBits
  if exponent = f.top then
    if mantissa = 0 then .ofFields sign 2047 0
    else .ofFields sign 2047 (mantissa <<< (52 - f.mantissaBits) ||| 1 <<< 51)
  else if exponent = 0 then
    if mantissa = 0 then .ofFields sign 0 0
    else
      let k := mantissa.log2
      .ofFields sign (k + 1024 - f.bias - f.mantissaBits) ((mantissa - 1 <<< k) <<< (52 - k))
  else .ofFields sign (exponent + 1023 - f.bias) (mantissa <<< (52 - f.mantissaBits))

/-- The bits of the only narrow float that can widen to `d`: exponent and
    mantissa moved to their fields, bits that do not fit cut off. -/
def candidate (f : Layout) (d : Double) : Nat :=
  let n := d.bits.toNat
  let sign := n >>> 63 <<< (f.exponentBits + f.mantissaBits)
  let exponent := n >>> 52 % 1 <<< 11
  let mantissa := n % 1 <<< 52
  let cut := mantissa >>> (52 - f.mantissaBits)
  if exponent = 2047 then sign + f.top <<< f.mantissaBits + cut
  else if 1023 < exponent + f.bias then
    sign + min (exponent + f.bias - 1023) f.top <<< f.mantissaBits + cut
  else
    sign + (1 <<< 52 + mantissa) >>> (1076 - f.mantissaBits - f.bias - exponent)

/-- The bits of the narrow float that stands for exactly `d`, if there is one. -/
def narrow? (f : Layout) (d : Double) : Option Nat :=
  if f.widen (f.candidate d) = d then some (f.candidate d) else none

/-- A narrowed float widens to the double it was made from. -/
theorem widen_of_narrow? {f : Layout} {d : Double} {b : Nat} (h : f.narrow? d = some b) :
    f.widen b = d := by
  unfold narrow? at h
  split at h
  · next he => cases h; exact he
  · cases h

end Layout

end TableVault.Cbor
