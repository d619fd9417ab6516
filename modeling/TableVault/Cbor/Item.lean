import TableVault.Text.Utf8
import TableVault.Cbor.Value
import TableVault.Cbor.Head

namespace TableVault.Cbor

/-!
# Reading items

The reader of an item is given the head of that item, so that a caller can look at
a head before it decides who reads on.

* `forEach` / `many` — the items of an array or the entries of a map;
* `untag` — the first head that is no tag;
* `byteString` / `textString` — strings, in one piece or in segments;
* `integer` — an integer of any size up to sixteen magnitude bytes, plain or big;
* `valueFrom` — a value of any kind, nested at most as deep as a budget allows.
-/

/-- A reader of an item whose head has been read. -/
abbrev Item (α : Type) := Head → Reader α

/-- Reads an item from its head on. -/
def Item.next {α : Type} (item : Item α) : Reader α := do
  item (← Head.read)

/-! ### Sequences -/

/-- Carries a state through `n` items. -/
def counted {ρ : Type} (step : ρ → Item ρ) : (n : Nat) → ρ → Reader ρ
  | 0, r => pure r
  | n + 1, r => do counted step n (← step r (← Head.read))

/-- Carries a state through items up to a `stop`. -/
def untilStop {ρ : Type} (step : ρ → Item ρ) (r : ρ) : Reader ρ :=
  Reader.loop (fun r => do
    match ← Head.read with
    | .stop => return .done r
    | h => return .again (← step r h)) r

/-- Carries a state through the items that a head announced. -/
def forEach {ρ : Type} (length : Option Nat) (step : ρ → Item ρ) (r : ρ) : Reader ρ :=
  match length with
  | some n => counted step n r
  | none => untilStop step r

/-- The items that a head announced, in order. -/
def many {α : Type} (length : Option Nat) (item : Item α) : Reader (List α) := do
  let reversed ← forEach length (fun acc h => return (← item h) :: acc) []
  return reversed.reverse

/-- The first head that is no tag. -/
def untag : Item Head :=
  Reader.loop fun h => do
    match h with
    | .tag _ => return .again (← Head.read)
    | h => return .done h

/-! ### Strings -/

/-- Carries a state through the segments of a string. A definite string is one
    segment. In an indefinite one each head is the head of a definite segment, opens
    a string nested in it (whose segments count as its own), or closes one;
    `announced` says what a head announces, for the kind of string at hand. -/
def segments {ρ : Type} (announced : Head → Option (Option Nat)) (segment : ρ → Nat → Reader ρ)
    (length : Option Nat) (r : ρ) : Reader ρ :=
  match length with
  | some n => segment r n
  | none => Reader.loop (fun (s : Nat × ρ) => do
      match ← Head.read with
      | .stop => if s.1 = 0 then return .done s.2 else return .again (s.1 - 1, s.2)
      | h =>
        match announced h with
        | some (some n) => return .again (s.1, ← segment s.2 n)
        | some none => return .again (s.1 + 1, s.2)
        | none => throw .malformed) (0, r)

/-- The length that the head of a byte string announces. -/
def Head.bytesLength? : Head → Option (Option Nat)
  | .bytes length => some length
  | _ => none

/-- The length that the head of a text announces. -/
def Head.textLength? : Head → Option (Option Nat)
  | .text length => some length
  | _ => none

/-- The content of a byte string whose head announced `length`. -/
def byteString (length : Option Nat) : Reader Bytes := do
  let reversed ← segments Head.bytesLength? (fun acc n => return (← Reader.take n) :: acc)
    length []
  return reversed.reverse.flatten

/-- The most bytes that a text is read at a time. -/
def textWindow : Nat := 4096

/-- The characters of `unread` more bytes of a text, the first of which follow
    `carry`. A window that ends inside a character carries the at most three bytes of
    it over to the next; more bytes than that cannot become a character. -/
def textFrom : (fuel unread : Nat) → (carry : Bytes) → Reader (List Char)
  | 0, _, carry => if carry = [] then pure [] else throw .malformed
  | fuel + 1, unread, carry =>
    if unread = 0 then
      if carry = [] then pure [] else throw .malformed
    else do
      let fresh ← Reader.take (min unread (textWindow - carry.length))
      let (cs, rest) := Utf8.scan (carry ++ fresh)
      if 3 < rest.length then throw .malformed
      return cs ++ (← textFrom fuel (unread - fresh.length) rest)

/-- The characters of one segment of `n` bytes, which must be valid by itself. -/
def textSegment (n : Nat) : Reader (List Char) :=
  textFrom n n []

/-- The text whose head announced `length`. -/
def textString (length : Option Nat) : Reader String := do
  let reversed ← segments Head.textLength? (fun acc n => return (← textSegment n) :: acc)
    length []
  return String.ofList reversed.reverse.flatten

/-! ### Integers -/

/-- The most bytes that a magnitude has after its leading zeros. -/
def magnitudeLimit : Nat := 16

/-- Appends bytes to a magnitude, leaving out leading zeros. -/
def extendMagnitude (m : Bytes) : Bytes → Except Fault Bytes
  | [] => .ok m
  | x :: rest =>
    if m = [] ∧ x = 0 then extendMagnitude m rest
    else if m.length = magnitudeLimit then .error .mismatch
    else extendMagnitude (m ++ [x]) rest

/-- Appends a segment of `n` bytes to a magnitude, as many bytes at a time as a
    magnitude can have. -/
def magnitudeSegment : (fuel : Nat) → (m : Bytes) → (n : Nat) → Reader Bytes
  | 0, m, _ => pure m
  | fuel + 1, m, n =>
    if n = 0 then pure m
    else do
      let b ← Reader.take (min n magnitudeLimit)
      magnitudeSegment fuel (← extendMagnitude m b) (n - b.length)

/-- The magnitude of a big integer, over a byte string whose head announced `length`. -/
def magnitude (length : Option Nat) : Reader Bytes :=
  segments Head.bytesLength? (fun m n => magnitudeSegment n m n) length []

/-- The integer with a given magnitude: `n`, or `-1 - n`. -/
def signed (isNegative : Bool) (n : Nat) : Int :=
  if isNegative then Int.negSucc n else Int.ofNat n

/-- An integer, whatever its head: tags in front are skipped, except that a big
    integer tag must be followed by its magnitude. -/
def integer : Item Int :=
  Reader.loop fun h => do
    match h with
    | .unsigned n => return .done (signed false n.toNat)
    | .negative n => return .done (signed true n.toNat)
    | .tag t =>
      if t = bigPositive ∨ t = bigNegative then
        match ← Head.read with
        | .bytes length =>
          let m ← magnitude length
          return .done (signed (t == bigNegative) (Bytes.ofBigEndian m))
        | _ => throw .mismatch
      else return .again (← Head.read)
    | _ => throw .mismatch

/-! ### Values -/

/-- The value of a simple item: the two booleans, and null in its two forms. -/
def ofSimple (n : UInt8) : Except Fault Value :=
  if n = 20 then .ok (.bool false)
  else if n = 21 then .ok (.bool true)
  else if n = 22 ∨ n = 23 then .ok .null
  else .error .mismatch

/-- The largest magnitude of a negative big integer in a value. -/
def bigNegativeLimit : Nat := 0x7fffffffffffffffffffffffffffffff

/-- The value of a big integer in a value. -/
def bigInteger (isNegative : Bool) (length : Nat) : Reader Value := do
  let m ← magnitude (some length)
  if isNegative ∧ bigNegativeLimit < Bytes.ofBigEndian m then throw .mismatch
  return Value.ofMagnitude isNegative m

/-- The tagged item after a tag, whose head `next` has been read: a big integer if a
    big integer tag is followed by a definite string of at most sixteen bytes. -/
def tagged (deeper : Reader (Item Value)) (t : UInt64) (next : Head) : Reader Value := do
  match next with
  | .bytes (some n) =>
    if (t = bigPositive ∨ t = bigNegative) ∧ n ≤ magnitudeLimit then
      bigInteger (t == bigNegative) n
    else return .tag t (← (← deeper) next)
  | next => return .tag t (← (← deeper) next)

/-- A value, given the reader of what is nested in it; `deeper` fails if nothing may
    be nested any more. -/
def valueWith (deeper : Reader (Item Value)) : Item Value
  | .unsigned n => return .unsigned n
  | .negative n => return .negative n
  | .float d => return .float d
  | .simple n => ofSimple n
  | .stop => throw .mismatch
  | .bytes length => return .bytes (← byteString length)
  | .text length => return .text (← textString length)
  | .array length => do
    let item ← deeper
    return .array (← many length item)
  | .map length => do
    let item ← deeper
    return .map (← many length fun h => return (← item h, ← Item.next item))
  | .tag t => do tagged deeper t (← Head.read)

/-- A value whose arrays, maps and tags are nested at most `budget` deep. -/
def valueFrom : (budget : Nat) → Item Value
  | 0 => valueWith (throw .tooDeep)
  | budget + 1 => valueWith (pure (valueFrom budget))

/-- How deep the items of one encoded value may be nested. -/
def nestingLimit : Nat := 256

end TableVault.Cbor
