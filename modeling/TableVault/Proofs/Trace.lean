import TableVault.Proofs.Storage.Lawful

namespace TableVault

/-!
# Traces

* `outcome` — what a computation answers, and the state that it leaves;
* `trace` — the answers to requests that are made one after another;
* `trace_related` and `trace_simulation` — two systems that answer every request alike and stay
  in step answer every sequence of requests alike;
* `trace_invariant` and `trace_history` — what every request keeps holds at the end, and so does
  what depends on the requests so far;
* `inTurn` and `trace_inTurn` — several parties make their requests in turn, and one that the
  others do not disturb is answered as if it were alone.
-/

variable {α β β' ε γ γ' σ τ : Type}

/-- What a computation answers, and the state that it leaves. -/
def outcome (x : EStateM ε σ α) (s : σ) : Except ε α × σ :=
  match x s with
  | .ok a s' => (.ok a, s')
  | .error e s' => (.error e, s')

/-- What a computation answers and leaves when it has run to its end. -/
theorem outcome_of_answering {x : EStateM ε σ α} {s s' : σ} {r : Except ε α}
    (h : x s = Storage.answering r s') : outcome x s = (r, s') := by
  rw [outcome, h]
  cases r <;> rfl

/-- The answers to requests that are made one after another, and the state at the end. -/
def trace (step : β → σ → γ × σ) : List β → σ → List γ × σ
  | [], s => ([], s)
  | b :: rest, s =>
    let (c, s') := step b s
    let (cs, final) := trace step rest s'
    (c :: cs, final)

/-- An answer is given in the state that the requests before it have left. -/
theorem getElem?_trace (f : β → σ → γ × σ) (bs : List β) (s : σ) (n : ℕ) :
    (trace f bs s).1[n]? = bs[n]?.map fun b => (f b (trace f (bs.take n) s).2).1 := by
  induction bs generalizing s n with
  | nil => rfl
  | cons b rest ih =>
    cases n with
    | zero => rfl
    | succ n => exact ih (f b s).2 n

/-- **Two runs.** If two systems answer related requests with related answers in related states
    and are left in related states, so they do with related sequences of requests. -/
theorem trace_related {f : β → σ → γ × σ} {g : β' → τ → γ' × τ} {P : β → β' → Prop}
    {Q : γ → γ' → Prop} {R : σ → τ → Prop}
    (hstep : ∀ b b' s t, P b b' → R s t → Q (f b s).1 (g b' t).1 ∧ R (f b s).2 (g b' t).2)
    {bs : List β} {bs' : List β'} (hbs : List.Forall₂ P bs bs') {s : σ} {t : τ} (h : R s t) :
    List.Forall₂ Q (trace f bs s).1 (trace g bs' t).1 ∧ R (trace f bs s).2 (trace g bs' t).2 := by
  induction hbs generalizing s t with
  | nil => exact ⟨.nil, h⟩
  | cons hb _ ih =>
    obtain ⟨hanswer, hnext⟩ := hstep _ _ s t hb h
    obtain ⟨hanswers, hfinal⟩ := ih hnext
    exact ⟨.cons hanswer hanswers, hfinal⟩

/-- **Simulation.** If two systems answer every request alike in related states and are
    left in related states, they answer every sequence of requests alike. -/
theorem trace_simulation {f : β → σ → γ × σ} {g : β → τ → γ × τ} {R : σ → τ → Prop}
    (hstep : ∀ b s t, R s t → (f b s).1 = (g b t).1 ∧ R (f b s).2 (g b t).2)
    (bs : List β) {s : σ} {t : τ} (h : R s t) :
    (trace f bs s).1 = (trace g bs t).1 ∧ R (trace f bs s).2 (trace g bs t).2 := by
  have hsame : ∀ b b' s t, b = b' → R s t → (f b s).1 = (g b' t).1 ∧ R (f b s).2 (g b' t).2 := by
    rintro b _ s t rfl hst
    exact hstep b s t hst
  obtain ⟨hanswers, hfinal⟩ := trace_related (Q := Eq) hsame (List.forall₂_refl bs) h
  rw [List.forall₂_eq_eq_eq] at hanswers
  exact ⟨hanswers, hfinal⟩

/-- **Invariants.** What every one of the requests keeps holds after all of them. -/
theorem trace_invariant {f : β → σ → γ × σ} {I : σ → Prop} {bs : List β}
    (hstep : ∀ b ∈ bs, ∀ s, I s → I (f b s).2) {s : σ} (h : I s) : I (trace f bs s).2 := by
  induction bs generalizing s with
  | nil => exact h
  | cons b rest ih =>
    exact ih (fun b' hb' => hstep b' (by simp [hb'])) (hstep b (by simp) s h)

/-- **Histories.** What every request keeps of the state and the requests before it holds of the
    state in the end and all of them. -/
theorem trace_history {f : β → σ → γ × σ} {I : List β → σ → Prop}
    (hstep : ∀ before b s, I before s → I (before ++ [b]) (f b s).2) {before : List β} {s : σ}
    (h : I before s) (bs : List β) : I (before ++ bs) (trace f bs s).2 := by
  induction bs generalizing before s with
  | nil => rwa [List.append_nil]
  | cons b rest ih =>
    have hrest := ih (hstep before b s h)
    rwa [List.append_assoc] at hrest

/-! ### Taking turns -/

section Parties

variable {ι : Type} [DecidableEq ι]

/-- What belongs to one of several parties, in its own order. -/
def ofParty (i : ι) (turns : List (ι × α)) : List α :=
  (turns.filter fun turn => turn.1 = i).map (·.2)

/-- A party makes a request to a system that it shares with others, and is answered. -/
def inTurn (f : ι → β → σ → γ × σ) (turn : ι × β) (s : σ) : (ι × γ) × σ :=
  ((turn.1, (f turn.1 turn.2 s).1), (f turn.1 turn.2 s).2)

/-- The first turn belongs to its party. -/
theorem ofParty_cons_self (i : ι) (a : α) (turns : List (ι × α)) :
    ofParty i ((i, a) :: turns) = a :: ofParty i turns := by
  simp [ofParty]

/-- The first turn does not belong to another party. -/
theorem ofParty_cons_of_ne {i j : ι} (h : j ≠ i) (a : α) (turns : List (ι × α)) :
    ofParty i ((j, a) :: turns) = ofParty i turns := by
  simp [ofParty, h]

/-- A turn belongs to the party that has taken it. -/
theorem mem_ofParty {i : ι} {a : α} {turns : List (ι × α)} :
    a ∈ ofParty i turns ↔ (i, a) ∈ turns := by
  simp [ofParty]

/-- **Alone and among others.** If the requests of a party are answered alike in related states
    and the requests of the others keep states related, the party is answered as if it were
    alone. -/
theorem trace_inTurn {f : ι → β → σ → γ × σ} {R : σ → σ → Prop} {i : ι} {turns : List (ι × β)}
    (hown : ∀ b, (i, b) ∈ turns → ∀ s t, R s t →
      (f i b s).1 = (f i b t).1 ∧ R (f i b s).2 (f i b t).2)
    (hother : ∀ j b, (j, b) ∈ turns → j ≠ i → ∀ s t, R s t → R (f j b s).2 t)
    {s t : σ} (h : R s t) :
    ofParty i (trace (inTurn f) turns s).1 = (trace (f i) (ofParty i turns) t).1 ∧
      R (trace (inTurn f) turns s).2 (trace (f i) (ofParty i turns) t).2 := by
  induction turns generalizing s t with
  | nil => exact ⟨rfl, h⟩
  | cons turn rest ih =>
    have htail := fun {s t} => ih (s := s) (t := t) (fun b hb => hown b (by simp [hb]))
      (fun j b hb => hother j b (by simp [hb]))
    obtain ⟨j, b⟩ := turn
    by_cases hj : j = i
    · -- The party makes its request in both runs.
      subst hj
      obtain ⟨hanswer, hnext⟩ := hown b (by simp) s t h
      obtain ⟨hanswers, hfinal⟩ := htail hnext
      rw [ofParty_cons_self]
      refine ⟨?_, hfinal⟩
      exact (ofParty_cons_self ..).trans (congrArg₂ List.cons hanswer hanswers)
    · -- Another party does, and only in the shared run.
      obtain ⟨hanswers, hfinal⟩ := htail (hother j b (by simp) hj s t h)
      rw [ofParty_cons_of_ne hj]
      exact ⟨(ofParty_cons_of_ne hj ..).trans hanswers, hfinal⟩

end Parties

end TableVault
