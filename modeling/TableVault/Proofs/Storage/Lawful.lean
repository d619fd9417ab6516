import Mathlib
import TableVault.Action
import TableVault.Proofs.Storage.Transactions

namespace TableVault.Storage

/-!
# Lawful backends

Programs on a backend are written once for every kind of storage. What they do is also
proved once, for every storage that has tables to be seen and changes them as it should.

* `Visible` — a storage whose tables can be seen as long as it is open. It may be
  *mortal*: then the process may die in front of any write;
* `Runs x ts r us cut` — from the tables `ts`, the program `x` answers `r` and leaves the
  tables `us`, unless the process dies on the way and leaves tables in `cut`;
* `bind_of_ok` and `bind_of_error` — computations one after another, step by step;
* `ok_of_bind` and `ok_of_map` — a result tells what it was made from;
* `Runs.bind`, `Runs.bind_error` — what a program does follows from what its parts do;
* `LawfulBackend` — the operations of a backend, each with what it does;
* the storage in memory and the durable one are lawful and not mortal.
-/

/-! ### What a program does -/

/-- A storage whose tables can be seen. -/
class Visible (σ : Type) where
  /-- The tables, as long as the storage is open. -/
  view : σ → Option Tables
  /-- Whether the process may die in front of a write. -/
  mortal : Prop

export Visible (view mortal)

variable {σ ε α β : Type}

/-- The result of a computation that answers `r` and leaves the state `s`. -/
def answering (r : Except ε α) (s : σ) : EStateM.Result ε σ α :=
  match r with
  | .ok a => .ok a s
  | .error e => .error e s

/-- What comes after a computation goes on from its answer and from what it left. -/
theorem bind_of_ok {x : EStateM ε σ α} {s s' : σ} {a : α} (hx : x s = .ok a s')
    (f : α → EStateM ε σ β) : (x >>= f) s = f a s' := by
  show EStateM.bind x f s = _
  simp only [EStateM.bind, hx]

/-- Nothing comes after an error. -/
theorem bind_of_error {x : EStateM ε σ α} {s s' : σ} {e : ε} (hx : x s = .error e s')
    (f : α → EStateM ε σ β) : (x >>= f) s = .error e s' := by
  show EStateM.bind x f s = _
  simp only [EStateM.bind, hx]

/-- What goes on after another computation has a result only if that has one. -/
theorem ok_of_bind {x : Except ε α} {f : α → Except ε β} {b : β} (h : (x >>= f) = .ok b) :
    ∃ a, x = .ok a ∧ f a = .ok b := by
  cases x with
  | ok a => exact ⟨a, rfl, h⟩
  | error e => cases h

/-- A result that has been mapped was one before. -/
theorem ok_of_map {x : Except ε α} {f : α → β} {b : β} (h : x.map f = .ok b) :
    ∃ a, x = .ok a ∧ f a = b := by
  cases x with
  | ok a => exact ⟨a, rfl, Except.ok.inj h⟩
  | error e => cases h

/-- A backend operation that succeeds does so as an action. -/
theorem ofStorage_of_ok {x : StorageAction σ α} {s s' : σ} {a : α} (hx : x s = .ok a s') :
    Action.ofStorage x s = .ok a s' := by
  rw [Action.ofStorage, hx]

/-- A backend operation that fails does so as an action. -/
theorem ofStorage_of_error {x : StorageAction σ α} {s s' : σ} {e : StorageError}
    (hx : x s = .error e s') : Action.ofStorage x s = .error (.ofStorage e) s' := by
  rw [Action.ofStorage, hx]

/-- From the tables `ts`, the program `x` answers `r` and leaves the tables `us`. If the
    storage is mortal it may fail on the way instead, and then leaves tables in `cut`. -/
def Runs [Visible σ] (x : EStateM ε σ α) (ts : Tables) (r : Except ε α) (us : Tables)
    (cut : Set Tables) : Prop :=
  ∀ s : σ, view s = some ts →
    (∃ s', x s = answering r s' ∧ view s' = some us) ∨
    (mortal σ ∧ ∃ e s' vs, x s = .error e s' ∧ view s' = some vs ∧ vs ∈ cut)

namespace Runs

variable [Visible σ] {ts us vs : Tables} {cut cut₁ cut₂ : Set Tables}

/-- A program that does nothing leaves the tables alone. -/
theorem pure (a : α) (ts : Tables) : Runs (σ := σ) (Pure.pure a : EStateM ε σ α) ts (.ok a) ts ∅ :=
  fun s hs => .inl ⟨s, rfl, hs⟩

/-- A weaker account of where a program may be cut short. -/
theorem mono {x : EStateM ε σ α} {r : Except ε α} (h : Runs x ts r us cut₁) (hcut : cut₁ ⊆ cut₂) :
    Runs x ts r us cut₂ := by
  intro s hs
  rcases h s hs with hdone | ⟨hm, e, s', vs, hx, hv, hc⟩
  · exact .inl hdone
  · exact .inr ⟨hm, e, s', vs, hx, hv, hcut hc⟩

/-- Two programs one after the other: the second goes on from what the first has left,
    and either may be cut short. -/
theorem bind {x : EStateM ε σ α} {f : α → EStateM ε σ β} {a : α} {r : Except ε β}
    (hx : Runs x ts (.ok a) us cut₁) (hf : Runs (f a) us r vs cut₂) :
    Runs (x >>= f) ts r vs (cut₁ ∪ cut₂) := by
  intro s hs
  -- The process may die in the first program, and then the second never starts.
  rcases hx s hs with ⟨s₁, hx₁, hv₁⟩ | ⟨hm, e, s₁, ws, hx₁, hv₁, hc₁⟩
  · rw [bind_of_ok hx₁ f]
    rcases hf s₁ hv₁ with hdone | ⟨hm, e, s₂, ws, hx₂, hv₂, hc₂⟩
    · exact .inl hdone
    · exact .inr ⟨hm, e, s₂, ws, hx₂, hv₂, .inr hc₂⟩
  · exact .inr ⟨hm, e, s₁, ws, bind_of_error hx₁ f, hv₁, .inl hc₁⟩

/-- A program that only looks and then goes on is cut short where its rest is. -/
theorem bind_of_look {x : EStateM ε σ α} {f : α → EStateM ε σ β} {a : α} {r : Except ε β}
    (hx : Runs x ts (.ok a) us ∅) (hf : Runs (f a) us r vs cut) :
    Runs (x >>= f) ts r vs cut := by
  have h := hx.bind hf
  rwa [Set.empty_union] at h

/-- After an error nothing more is done. -/
theorem bind_error {x : EStateM ε σ α} {f : α → EStateM ε σ β} {e : ε}
    (hx : Runs x ts (.error e) us cut) : Runs (x >>= f) ts (.error e) us cut := by
  intro s hs
  rcases hx s hs with ⟨s₁, hx₁, hv₁⟩ | ⟨hm, e', s₁, ws, hx₁, hv₁, hc₁⟩
  · exact .inl ⟨s₁, bind_of_error hx₁ f, hv₁⟩
  · exact .inr ⟨hm, e', s₁, ws, bind_of_error hx₁ f, hv₁, hc₁⟩

/-- A program whose answer is changed at the end. -/
theorem map {x : EStateM ε σ α} {r : Except ε α} (g : α → β) (h : Runs x ts r us cut) :
    Runs (do return g (← x)) ts (r.map g) us cut := by
  cases r with
  | ok a =>
    have hg := h.bind (f := fun a => Pure.pure (g a)) (Runs.pure (g a) us)
    rwa [Set.union_empty] at hg
  | error e => exact h.bind_error

/-- A pure computation leaves the tables alone. -/
theorem ofExcept (r : Except VaultError α) (ts : Tables) :
    Runs (σ := σ) (Action.ofExcept r) ts r ts ∅ := by
  intro s hs
  refine .inl ⟨s, ?_, hs⟩
  cases r <;> rfl

/-- A backend operation does as an action what it does by itself. -/
theorem ofStorage {x : StorageAction σ α} {a : α} (h : Runs x ts (.ok a) us cut) :
    Runs (Action.ofStorage x) ts (.ok a) us cut := by
  intro s hs
  rcases h s hs with ⟨s', hx, hv⟩ | ⟨hm, e, s', vs, hx, hv, hc⟩
  · exact .inl ⟨s', ofStorage_of_ok hx, hv⟩
  · exact .inr ⟨hm, .ofStorage e, s', vs, ofStorage_of_error hx, hv, hc⟩

/-- A program on a storage that is not mortal runs to its end. -/
theorem outcome {x : EStateM ε σ α} {r : Except ε α} (h : Runs x ts r us cut)
    (hm : ¬ mortal σ) {s : σ} (hs : view s = some ts) :
    ∃ s', x s = answering r s' ∧ view s' = some us := by
  rcases h s hs with hdone | ⟨hm', -⟩
  · exact hdone
  · exact absurd hm' hm

/-- A program that only looks runs to its end on every storage. -/
theorem outcome_of_look {x : EStateM ε σ α} {r : Except ε α} (h : Runs x ts r us ∅) {s : σ}
    (hs : view s = some ts) : ∃ s', x s = answering r s' ∧ view s' = some us := by
  rcases h s hs with hdone | ⟨-, _, _, _, -, -, hcut⟩
  · exact hdone
  · exact absurd hcut (Set.notMem_empty _)

end Runs

/-! ### The laws -/

/-- A backend whose operations do to its tables what they should. A process that dies in
    front of a write leaves the tables as they were. -/
class LawfulBackend (σ : Type) [Backend σ] extends Visible σ where
  tables_runs (ts : Tables) :
    Runs (Backend.tables : StorageAction σ _) ts (.ok ts.names) ts ∅
  countKeys_runs (ts : Tables) (table : String) :
    Runs (Backend.countKeys table : StorageAction σ _) ts (.ok (ts.recordsOf table).size) ts ∅
  keys_runs (ts : Tables) (table : String) :
    Runs (Backend.keys table : StorageAction σ _) ts (.ok (ts.recordsOf table).keys) ts ∅
  get_runs (ts : Tables) (table key : String) :
    Runs (Backend.get table key : StorageAction σ _) ts (.ok (ts.find? table key)) ts ∅
  set_runs (ts : Tables) (table key : String) (record : Bytes) :
    Runs (Backend.set table key record : StorageAction σ _) ts (.ok ()) (ts.put table key record) {ts}
  unset_runs (ts : Tables) (table key : String) :
    Runs (Backend.unset table key : StorageAction σ _) ts (.ok ()) (ts.remove table key) {ts}
  unsetMany_runs (ts : Tables) (table : String) (keys : List String) :
    Runs (Backend.unsetMany table keys : StorageAction σ _) ts (.ok (ts.countPresent table keys))
      (ts.removeKeys table keys) {ts}
  dropTable_runs (ts : Tables) (base : String) :
    Runs (Backend.dropTable base : StorageAction σ _) ts (.ok ()) (ts.dropSubtree base) {ts}

/-! ### The two kinds of storage -/

namespace Memory

instance : Visible Memory := ⟨Memory.tables?, False⟩

/-- Looking at open storage. -/
theorem read_runs (f : Tables → α) (ts : Tables) : Runs (read f) ts (.ok (f ts)) ts ∅ := by
  intro m hm
  refine .inl ⟨m, ?_, hm⟩
  rw [read, show m.tables? = some ts from hm]
  rfl

/-- Changing open storage. -/
theorem write_runs {f : Tables → α × Tables} {ts us : Tables} {a : α} (h : f ts = (a, us)) :
    Runs (write f) ts (.ok a) us {ts} := by
  intro m hm
  refine .inl ⟨⟨some us⟩, ?_, rfl⟩
  rw [write, show m.tables? = some ts from hm]
  simp only [h, answering]

instance : LawfulBackend Memory where
  tables_runs := read_runs _
  countKeys_runs ts _ := read_runs _ ts
  keys_runs ts _ := read_runs _ ts
  get_runs ts _ _ := read_runs _ ts
  set_runs _ _ _ _ := write_runs rfl
  unset_runs _ _ _ := write_runs rfl
  unsetMany_runs ts table keys := write_runs (unsetMany_eq ts table keys)
  dropTable_runs _ _ := write_runs rfl

end Memory

namespace Durable

instance : Visible Durable := ⟨fun d => if d.isOpen then some d.tables else none, False⟩

/-- An open handle shows the tables of its file. -/
theorem view_eq_some {d : Durable} {ts : Tables} (h : view d = some ts) :
    d.isOpen = true ∧ d.tables = ts := by
  have hview : (if d.isOpen then some d.tables else none) = some ts := h
  split at hview
  · next hopen => exact ⟨hopen, Option.some.inj hview⟩
  · exact absurd hview (by simp)

/-- Looking at an open file. -/
theorem read_runs (f : Tables → α) (ts : Tables) : Runs (read f) ts (.ok (f ts)) ts ∅ := by
  intro d hd
  obtain ⟨hopen, htables⟩ := view_eq_some hd
  refine .inl ⟨d, ?_, hd⟩
  rw [read, if_pos hopen, htables]
  rfl

/-- Committing a transaction on an open file. -/
theorem write_runs {body : Transaction (Verdict × α)} {ts us : Tables} {a : α}
    (h : body.run ts = (a, us)) : Runs (write body) ts (.ok a) us {ts} := by
  intro d hd
  obtain ⟨hopen, htables⟩ := view_eq_some hd
  refine .inl ⟨{ d with tables := us }, ?_, ?_⟩
  · rw [write, if_pos hopen, htables, h]
    rfl
  · show (if d.isOpen then some us else none) = some us
    rw [if_pos hopen]

instance : LawfulBackend Durable where
  tables_runs := read_runs _
  countKeys_runs ts _ := read_runs _ ts
  keys_runs ts _ := read_runs _ ts
  get_runs ts _ _ := read_runs _ ts
  set_runs ts table key record := write_runs (run_setRecord ts table key record)
  unset_runs ts table key := write_runs (run_unsetRecord ts table key)
  unsetMany_runs ts table keys := write_runs (run_unsetRecords ts table keys)
  dropTable_runs ts base := write_runs (run_dropTables ts base)

end Durable

end TableVault.Storage
