import TableVault.Bytes

namespace TableVault.Cbor

/-!
# Readers

A reader consumes bytes from the front of its input. It either fails or returns
a result together with the bytes that it left.

* `Fault` — the four ways in which reading fails;
* `Reader` — the monad of readers;
* `Reader.byte` / `Reader.take` — one byte, a fixed number of bytes;
* `Reader.loop` — repeats a step until it says that it is done. Every step but the
  last consumes a byte or more, so the length of the input bounds the repetition.
-/

/-- Why an encoded value cannot be read. -/
inductive Fault where
  /-- The input ends too early. -/
  | truncated
  /-- The bytes break the rules of the encoding. -/
  | malformed
  /-- A well-formed item of the wrong kind, or out of range. -/
  | mismatch
  /-- The items are nested too deep. -/
  | tooDeep
  deriving DecidableEq, Repr

/-- A short account of a fault. -/
def Fault.message : Fault → String
  | .truncated => "the input ends too early"
  | .malformed => "the bytes are not well-formed"
  | .mismatch => "the item has the wrong kind or range"
  | .tooDeep => "the items are nested too deep"

/-- A computation that consumes bytes from the front of its input. -/
abbrev Reader := StateT Bytes (Except Fault)

namespace Reader

/-- The next byte. -/
def byte : Reader UInt8
  | [] => .error .truncated
  | x :: b => .ok (x, b)

/-- The next `n` bytes. -/
def take : Nat → Reader Bytes
  | 0 => pure []
  | n + 1 => do
    let x ← byte
    return x :: (← take n)

/-- What a step of a loop says: go on from another state, or be done. -/
inductive Turn (σ α : Type) where
  | again (s : σ)
  | done (a : α)

/-- Repeats `step` from state `s`, at most `fuel` times. -/
def loopWithin {σ α : Type} (step : σ → Reader (Turn σ α)) : (fuel : Nat) → σ → Reader α
  | 0, _ => throw .truncated
  | fuel + 1, s => do
    match ← step s with
    | .again t => loopWithin step fuel t
    | .done a => return a

/-- Repeats `step` from state `s` until it is done. No step that goes on leaves the
    input as long as it was, so after the first step one more than the input has bytes
    is enough. -/
def loop {σ α : Type} (step : σ → Reader (Turn σ α)) (s : σ) : Reader α := do
  match ← step s with
  | .again t => fun b => loopWithin step (b.length + 1) t b
  | .done a => return a

/-! ### Running on known input -/

/-- Reading a byte takes the first one. -/
@[simp] theorem byte_cons (x : UInt8) (b : Bytes) : byte (x :: b) = .ok (x, b) := rfl

/-- There is no byte at the end of the input. -/
@[simp] theorem byte_nil : byte [] = .error .truncated := rfl

/-- Taking as many bytes as a byte string has takes exactly that byte string. -/
theorem take_append (a b : Bytes) : take a.length (a ++ b) = .ok (a, b) := by
  induction a with
  | nil => rfl
  | cons x a ih =>
    simp only [List.length_cons, List.cons_append, take, bind, StateT.bind, Except.bind,
      byte_cons, ih]
    rfl

/-- What `take` returns is a front part of the input, of the length asked for. -/
theorem take_eq_ok {n : Nat} {b x r : Bytes} (h : take n b = .ok (x, r)) :
    b = x ++ r ∧ x.length = n := by
  induction n generalizing b x with
  | zero => cases h; exact ⟨rfl, rfl⟩
  | succ n ih =>
    cases b with
    | nil => cases h
    | cons y b =>
      simp only [take, bind, StateT.bind, Except.bind, byte_cons] at h
      split at h
      · cases h
      · next p hp =>
        cases h
        obtain ⟨hb, hl⟩ := ih hp
        exact ⟨by rw [hb]; rfl, by rw [List.length_cons, hl]⟩

end Reader

end TableVault.Cbor
