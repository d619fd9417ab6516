import TableVault.Proofs.Cbor.ReadBack

namespace TableVault.Cbor

/-!
# Repetitions

A repetition has fuel, as much as its input is long. Nothing that it does is lost by this, since
every turn but the last takes a byte or more.

* `Loops` — the turns that a repetition takes over certain bytes, up to its answer, and
  `Loops.answers` — the repetition takes them;
* `Takes` — whatever a reader returns is what the bytes mean that it takes;
* `Takes.bind` and `Takes.loop` — this follows for composed readers from their parts;
* `Answers.counted` and `Answers.untilStop` — items one after another, up to the first that fails;
* `Sequenced` and `Answers.forEach` — the bytes of either form of a sequence, and what is read of
  them.
-/

open Reader

section Repetitions

variable {σ α β : Type} {step : σ → Reader (Turn σ α)}

/-! ### Turns -/

/-- The turns that a repetition takes over certain bytes, up to its answer. -/
inductive Loops (step : σ → Reader (Turn σ α)) : σ → Bytes → Except Fault α → Prop
  | last {s : σ} {b : Bytes} {r : Except Fault α} (h : Answers (step s) b (r.map .done)) :
    Loops step s b r
  | turn {s t : σ} {b later : Bytes} {r : Except Fault α} (hb : b ≠ [])
    (h : Reads (step s) b (.again t)) (hlater : Loops step t later r) : Loops step s (b ++ later) r

/-- Nothing comes after the last turn. -/
theorem Answers.last {x : Reader (Turn σ α)} {b : Bytes} {r : Except Fault α}
    (h : Answers x b (r.map .done)) {f : Turn σ α → Reader α} (hf : ∀ a, f (.done a) = pure a) :
    Answers (x >>= f) b r := by
  intro rest
  have hlast := h rest
  show StateT.bind x f _ = _
  cases r with
  | error e => simp only [StateT.bind, hlast, Except.map, Bind.bind, Except.bind]
  | ok a =>
    simp only [StateT.bind, hlast, Except.map, Bind.bind, Except.bind, hf]
    rfl

/-- Turns are taken as long as there is more fuel than bytes. -/
theorem Loops.answersWithin {s : σ} {b : Bytes} {r : Except Fault α} (h : Loops step s b r)
    {fuel : Nat} (hfuel : b.length < fuel) : Answers (loopWithin step fuel s) b r := by
  induction h generalizing fuel with
  | last h =>
    obtain ⟨n, rfl⟩ : ∃ n, fuel = n + 1 := ⟨fuel - 1, by omega⟩
    exact h.last fun a => rfl
  | turn hb h hlater ih =>
    obtain ⟨n, rfl⟩ : ∃ n, fuel = n + 1 := ⟨fuel - 1, by omega⟩
    have hpositive := List.length_pos_iff.mpr hb
    rw [List.length_append] at hfuel
    refine Answers.after h ?_
    exact ih (by omega)

/-- **A repetition takes its turns.** -/
theorem Loops.answers {s : σ} {b : Bytes} {r : Except Fault α} (h : Loops step s b r) :
    Answers (loop step s) b r := by
  cases h with
  | last h => exact h.last fun a => rfl
  | turn hb h hlater =>
    refine Answers.after h ?_
    -- The fuel is made of what is left of the input.
    intro rest
    refine hlater.answersWithin ?_ rest
    rw [List.length_append]
    omega

/-! ### What is taken -/

/-- Whatever the reader `x` returns is what the bytes mean, by `G`, that it takes. -/
def Takes (x : Reader α) (G : Bytes → α → Prop) : Prop :=
  ∀ b a rest, x b = .ok (a, rest) → ∃ front, b = front ++ rest ∧ G front a

namespace Takes

variable {G H : Bytes → α → Prop} {x : Reader α}

/-- What the bytes mean may be told in other words. -/
theorem mono (hx : Takes x G) (h : ∀ front a, G front a → H front a) : Takes x H := by
  intro b a rest hread
  obtain ⟨front, hb, hG⟩ := hx b a rest hread
  exact ⟨front, hb, h front a hG⟩

/-- A result that is there already. -/
theorem pure {a : α} (h : G [] a) : Takes (Pure.pure a : Reader α) G := by
  rintro b _ rest ⟨⟩
  exact ⟨[], rfl, h⟩

/-- A failure. -/
theorem fail (e : Fault) : Takes (throw e : Reader α) G := by
  rintro b a rest ⟨⟩

/-- A computation that does not read. -/
theorem lift {x : Except Fault α} (h : ∀ a, x = .ok a → G [] a) : Takes (liftM x : Reader α) G := by
  cases x with
  | ok a => exact pure (h a rfl)
  | error e => exact fail e

/-- One reader after another takes what both take. -/
theorem bind {f : α → Reader β} {K : Bytes → β → Prop} (hx : Takes x G)
    (hf : ∀ front a, G front a → Takes (f a) fun later c => K (front ++ later) c) :
    Takes (x >>= f) K := by
  intro b c rest hread
  change StateT.bind x f b = _ at hread
  simp only [StateT.bind, Bind.bind, Except.bind] at hread
  cases hfirst : x b with
  | error e =>
    rw [hfirst] at hread
    cases hread
  | ok p =>
    rw [hfirst] at hread
    obtain ⟨front, rfl, hG⟩ := hx b p.1 p.2 hfirst
    obtain ⟨later, hlater, hK⟩ := hf front p.1 hG _ _ _ hread
    refine ⟨front ++ later, ?_, hK⟩
    rw [List.append_assoc, ← hlater]

/-- A fixed number of bytes. -/
theorem take (n : Nat) : Takes (Reader.take n) fun front b => front = b ∧ b.length = n := by
  intro b a rest hread
  obtain ⟨hb, hlength⟩ := Reader.take_eq_ok hread
  exact ⟨a, hb, rfl, hlength⟩

/-- **A repetition takes what its turns take.** `P s front a` says that from the state `s` on the
    bytes `front` mean `a`: the last turn must show it, and every other turn keep it. -/
theorem loop {P : σ → Bytes → α → Prop}
    (hstep : ∀ s, Takes (step s) fun front turn =>
      match turn with
      | .done a => P s front a
      | .again t => ∀ later a, P t later a → P s (front ++ later) a) (s : σ) :
    Takes (Reader.loop step s) (P s) := by
  have hwithin : ∀ fuel s, Takes (loopWithin step fuel s) (P s) := by
    intro fuel
    induction fuel with
    | zero => exact fun s => fail .truncated
    | succ fuel ih =>
      intro s
      refine (hstep s).bind fun front turn hturn => ?_
      cases turn with
      | done a => exact pure (by simpa using hturn)
      | again t => exact (ih t).mono fun later a h => hturn later a h
  refine (hstep s).bind fun front turn hturn => ?_
  cases turn with
  | done a => exact pure (by simpa using hturn)
  | again t =>
    intro b a rest hread
    obtain ⟨later, hlater, hP⟩ := hwithin _ t b a rest hread
    exact ⟨later, hlater, hturn later a hP⟩

end Takes

end Repetitions

/-! ### Sequences -/

section Sequences

variable {α β ρ : Type}

/-- What an item answers follows the head in front of it. -/
theorem Answers.of_next {item : Item α} {h : Head} {b₁ b₂ : Bytes} {r : Except Fault α}
    (hhead : Reads Head.read b₁ h) (hall : Answers (Item.next item) (b₁ ++ b₂) r) :
    Answers (item h) b₂ r := by
  intro rest
  have hwhole := hall rest
  have hfirst := hhead (b₂ ++ rest)
  change StateT.bind Head.read item _ = _ at hwhole
  rw [StateT.bind, List.append_assoc, hfirst] at hwhole
  exact hwhole

/-- An item begins with a head that is no break. -/
def Opens (b : Bytes) : Prop :=
  ∃ head front body, b = front ++ body ∧ Reads Head.read front head ∧ head ≠ .stop

/-- What reads a head takes a byte at least. -/
theorem ne_nil_of_reads_head {b : Bytes} {h : Head} (hread : Reads Head.read b h) : b ≠ [] := by
  rintro rfl
  have hnone := hread []
  cases hnone

/-- A number of items, one after another, up to the first that fails. -/
theorem Answers.counted {step : ρ → Item ρ} {next : ρ → β → Except Fault ρ} {xs : List β}
    {bs : List Bytes}
    (h : List.Forall₂ (fun x b => ∀ r, Answers (Item.next (step r)) b (next r x)) xs bs) (r : ρ) :
    Answers (counted step xs.length r) bs.flatten (xs.foldlM next r) := by
  induction h generalizing r with
  | nil => exact Answers.of_reads (Reads.pure r)
  | cons hx _ ih =>
    rw [List.length_cons, counted_succ, List.flatten_cons, List.foldlM_cons]
    exact (hx r).bind fun r' _ => ih r'

/-- One turn of the items up to a break. -/
def stopStep (step : ρ → Item ρ) (r : ρ) : Reader (Turn ρ ρ) := do
  match ← Head.read with
  | .stop => return .done r
  | h => return .again (← step r h)

/-- Items up to a break are read in such turns. -/
theorem untilStop_eq (step : ρ → Item ρ) (r : ρ) : untilStop step r = loop (stopStep step) r := rfl

/-- An item that is no break is a turn of its own. -/
theorem Answers.stopStep {step : ρ → Item ρ} {b : Bytes} {r : ρ} {a : Except Fault ρ}
    (hopens : Opens b) (h : Answers (Item.next (step r)) b a) :
    Answers (stopStep step r) b (a.map .again) := by
  obtain ⟨head, front, body, rfl, hhead, hstop⟩ := hopens
  have hbody : Answers (do return (Turn.again (← step r head) : Turn ρ ρ)) body
      (a.map .again) := by
    have hagain := (Answers.of_next hhead h).map (Turn.again : ρ → Turn ρ ρ)
    cases a <;> exact hagain
  apply Answers.after hhead
  cases head <;> first | exact absurd rfl hstop | exact hbody

/-- Items up to a break, one after another, up to the first that fails. -/
theorem Answers.untilStop {step : ρ → Item ρ} {next : ρ → β → Except Fault ρ} {xs : List β}
    {bs : List Bytes}
    (h : List.Forall₂ (fun x b => Opens b ∧ ∀ r, Answers (Item.next (step r)) b (next r x)) xs bs)
    (r : ρ) :
    Answers (untilStop step r) (bs.flatten ++ [Head.initial 7 31]) (xs.foldlM next r) := by
  suffices hloops : Loops (Cbor.stopStep step) r (bs.flatten ++ [Head.initial 7 31])
      (xs.foldlM next r) by
    rw [untilStop_eq]
    exact hloops.answers
  induction h generalizing r with
  | nil =>
    refine .last ?_
    exact fun rest => rfl
  | @cons x b xs bs hx _ ih =>
    obtain ⟨hopens, hx⟩ := hx
    have hturn := (hx r).stopStep hopens
    rw [List.flatten_cons, List.append_assoc, List.foldlM_cons]
    cases hnext : next r x with
    | ok r' =>
      rw [hnext] at hturn
      refine .turn ?_ hturn (ih r')
      obtain ⟨head, front, body, rfl, hhead, -⟩ := hopens
      simp [ne_nil_of_reads_head hhead]
    | error e =>
      rw [hnext] at hturn
      refine .last ?_
      intro rest
      rw [List.append_assoc]
      exact hturn _

/-- The bytes of several items, for the length that the head in front of them has: as many of them,
    or, without a length, all up to a break. -/
inductive Sequenced : Option Nat → List Bytes → Bytes → Prop
  | counted (bs : List Bytes) : Sequenced (some bs.length) bs bs.flatten
  | untilStop (bs : List Bytes) : Sequenced none bs (bs.flatten ++ [Head.initial 7 31])

/-- **A sequence is read in either form**, item by item, up to the first that fails. -/
theorem Answers.forEach {step : ρ → Item ρ} {next : ρ → β → Except Fault ρ} {xs : List β}
    {length : Option Nat} {bs : List Bytes} {b : Bytes} (hb : Sequenced length bs b)
    (h : List.Forall₂ (fun x b => Opens b ∧ ∀ r, Answers (Item.next (step r)) b (next r x)) xs bs)
    (r : ρ) : Answers (forEach length step r) b (xs.foldlM next r) := by
  cases hb with
  | counted =>
    rw [← h.length_eq]
    exact Answers.counted (h.imp fun x b hx => hx.2) r
  | untilStop => exact Answers.untilStop h r

/-- What is put in front of what has come already comes in reverse. -/
theorem foldlM_cons_reverse (xs : List α) :
    xs.foldlM (fun acc x => .ok (x :: acc)) [] = (.ok xs.reverse : Except Fault (List α)) := by
  have hpure : xs.foldlM (fun acc x => pure (x :: acc)) [] =
      (pure (xs.foldl (fun acc x => x :: acc) []) : Except Fault (List α)) := List.foldlM_pure
  rw [List.foldl_flip_cons_eq_append', List.append_nil] at hpure
  exact hpure

/-- The items of an array are read in either form of it. -/
theorem Sequenced.reads_many {item : Item α} {xs : List α} {length : Option Nat} {bs : List Bytes}
    {b : Bytes} (hb : Sequenced length bs b)
    (h : List.Forall₂ (fun x b => Opens b ∧ Reads (Item.next item) b x) xs bs) :
    Reads (many length item) b xs := by
  have hstep : List.Forall₂ (fun x b => Opens b ∧ ∀ acc : List α,
      Answers (Item.next fun h => do return (← item h) :: acc) b (.ok (x :: acc))) xs bs :=
    h.imp fun x b hx => ⟨hx.1, fun acc => hx.2.next_map (· :: acc)⟩
  have hitems := Answers.forEach hb hstep []
  rw [foldlM_cons_reverse] at hitems
  have hall := Reads.map List.reverse hitems
  rw [List.reverse_reverse] at hall
  exact hall

end Sequences

end TableVault.Cbor
