import TableVault.Bytes

namespace TableVault.Utf8

/-!
# UTF-8

* `encodeChar` / `encode` — the bytes of a character and of a text;
* `scan` — the longest run of whole characters at the front of a byte string,
  and the bytes left over after it;
* `decode?` — the text of a byte string that is valid as a whole.

A character is written in the fewest bytes, surrogates are not characters, and
nothing above U+10FFFF is one; `scan` stops in front of the first byte that
breaks any of these rules or starts a character that the input cuts short.
-/

/-- The bytes of a character: one below U+0080, two below U+0800, three below
    U+10000, else four. -/
def encodeChar (c : Char) : Bytes :=
  let n := c.toNat
  if n < 0x80 then [UInt8.ofNat n]
  else if n < 0x800 then [UInt8.ofNat (0xc0 + n / 64), UInt8.ofNat (0x80 + n % 64)]
  else if n < 0x10000 then
    [UInt8.ofNat (0xe0 + n / 4096), UInt8.ofNat (0x80 + n / 64 % 64), UInt8.ofNat (0x80 + n % 64)]
  else
    [UInt8.ofNat (0xf0 + n / 262144), UInt8.ofNat (0x80 + n / 4096 % 64),
      UInt8.ofNat (0x80 + n / 64 % 64), UInt8.ofNat (0x80 + n % 64)]

/-- The bytes of a sequence of characters. -/
def encodeChars (cs : List Char) : Bytes :=
  cs.flatMap encodeChar

/-- The bytes of a text. -/
def encode (s : String) : Bytes :=
  encodeChars s.toList

/-! ### Single characters -/

/-- The character with number `n`, if `n` is at least `least` and is one. -/
def scalar? (least n : Nat) : Option Char :=
  if least ≤ n ∧ n.isValidChar then some (Char.ofNat n) else none

/-- The six payload bits of a continuation byte. -/
def continuation? (b : UInt8) : Option Nat :=
  if 0x80 ≤ b.toNat ∧ b.toNat < 0xc0 then some (b.toNat - 0x80) else none

/-- The character that one byte spells. -/
def one? (a : UInt8) : Option Char :=
  if a.toNat < 0x80 then some (Char.ofNat a.toNat) else none

/-- The character that two bytes spell. -/
def two? (a b : UInt8) : Option Char := do
  let y ← continuation? b
  if 0xc0 ≤ a.toNat ∧ a.toNat < 0xe0 then scalar? 0x80 ((a.toNat - 0xc0) * 64 + y) else none

/-- The character that three bytes spell. -/
def three? (a b c : UInt8) : Option Char := do
  let y ← continuation? b
  let z ← continuation? c
  if 0xe0 ≤ a.toNat ∧ a.toNat < 0xf0 then
    scalar? 0x800 ((a.toNat - 0xe0) * 4096 + y * 64 + z)
  else none

/-- The character that four bytes spell. -/
def four? (a b c d : UInt8) : Option Char := do
  let y ← continuation? b
  let z ← continuation? c
  let w ← continuation? d
  if 0xf0 ≤ a.toNat ∧ a.toNat < 0xf8 then
    scalar? 0x10000 ((a.toNat - 0xf0) * 262144 + y * 4096 + z * 64 + w)
  else none

/-! ### Byte strings -/

/-- Puts a character in front of a scanned run. -/
def push (c : Char) (run : List Char × Bytes) : List Char × Bytes :=
  (c :: run.1, run.2)

/-- The longest run of whole characters at the front of a byte string, and the
    bytes left over. -/
def scan : Bytes → List Char × Bytes
  | [] => ([], [])
  | a :: r₁ =>
    match one? a with
    | some x => push x (scan r₁)
    | none =>
      match r₁ with
      | [] => ([], [a])
      | b :: r₂ =>
        match two? a b with
        | some x => push x (scan r₂)
        | none =>
          match r₂ with
          | [] => ([], [a, b])
          | c :: r₃ =>
            match three? a b c with
            | some x => push x (scan r₃)
            | none =>
              match r₃ with
              | [] => ([], [a, b, c])
              | d :: r₄ =>
                match four? a b c d with
                | some x => push x (scan r₄)
                | none => ([], a :: b :: c :: d :: r₄)

/-- The text that a byte string spells, if it is valid as a whole. -/
def decode? (b : Bytes) : Option String :=
  match scan b with
  | (cs, []) => some (String.ofList cs)
  | (_, _ :: _) => none

end TableVault.Utf8
