import TableVault.Proofs.Trace

namespace TableVault.Storage

/-!
# Failures and closed storage

* `Still` and `Atomic` — computations that never change the state, and those that do not change it
  if they fail;
* `Still.bind`, `Atomic.bind` and `Atomic.map` — what comes after a computation that never changes
  the state may fail, and what comes after another one may not;
* `Barred` — an operation that closed storage refuses;
* `Closable` — a lawful backend of a process that does not die. Closing never fails, and what has
  been closed refuses every other operation;
* the storage in memory and the durable one are closable.
-/

variable {σ ε α β : Type}

/-! ### Failures -/

/-- A computation that never changes the state. -/
def Still (x : EStateM ε σ α) : Prop := ∀ s, ∃ r, x s = answering r s

/-- A computation that leaves the state as it was if it fails. -/
def Atomic (x : EStateM ε σ α) : Prop := ∀ s e s', x s = .error e s' → s' = s

namespace Still

/-- What never changes the state does not change it by a failure. -/
theorem atomic {x : EStateM ε σ α} (h : Still x) : Atomic x := by
  intro s e s' hx
  obtain ⟨r, hr⟩ := h s
  rw [hr] at hx
  cases r with
  | ok a => cases hx
  | error e' => exact (EStateM.Result.error.inj hx).2.symm

/-- Nothing is done to the state by an answer. -/
theorem pure (a : α) : Still (Pure.pure a : EStateM ε σ α) :=
  fun _ => ⟨.ok a, rfl⟩

/-- A pure computation never changes the state. -/
theorem ofExcept (r : Except VaultError α) : Still (Action.ofExcept (σ := σ) r) := by
  intro s
  refine ⟨r, ?_⟩
  cases r <;> rfl

/-- A backend operation that never changes the state does not change it as an action. -/
theorem ofStorage {x : StorageAction σ α} (h : Still x) : Still (Action.ofStorage x) := by
  intro s
  obtain ⟨r, hr⟩ := h s
  cases r with
  | ok a => exact ⟨.ok a, ofStorage_of_ok hr⟩
  | error e => exact ⟨.error (.ofStorage e), ofStorage_of_error hr⟩

/-- Two computations that never change the state. -/
theorem bind {x : EStateM ε σ α} {f : α → EStateM ε σ β} (hx : Still x) (hf : ∀ a, Still (f a)) :
    Still (x >>= f) := by
  intro s
  obtain ⟨r, hr⟩ := hx s
  cases r with
  | ok a =>
    rw [bind_of_ok hr]
    exact hf a s
  | error e => exact ⟨.error e, bind_of_error hr f⟩

end Still

namespace Atomic

/-- After a computation that never changes the state another one may fail. -/
theorem bind {x : EStateM ε σ α} {f : α → EStateM ε σ β} (hx : Still x) (hf : ∀ a, Atomic (f a)) :
    Atomic (x >>= f) := by
  intro s e s' h
  obtain ⟨r, hr⟩ := hx s
  cases r with
  | ok a =>
    rw [bind_of_ok hr] at h
    exact hf a s e s' h
  | error e' =>
    rw [bind_of_error hr] at h
    exact (EStateM.Result.error.inj h).2.symm

/-- The form of the answer does not matter. -/
theorem map {x : EStateM ε σ α} (g : α → β) (hx : Atomic x) : Atomic (do return g (← x)) := by
  intro s e s' h
  cases hresult : x s with
  | ok a t =>
    rw [bind_of_ok hresult] at h
    cases h
  | error e' t =>
    rw [bind_of_error hresult] at h
    obtain ⟨-, rfl⟩ := EStateM.Result.error.inj h
    exact hx s e' t hresult

/-- A backend operation that is atomic is atomic as an action. -/
theorem ofStorage {x : StorageAction σ α} (hx : Atomic x) : Atomic (Action.ofStorage x) := by
  intro s e s' h
  cases hresult : x s with
  | ok a t =>
    rw [ofStorage_of_ok hresult] at h
    cases h
  | error e' t =>
    rw [ofStorage_of_error hresult] at h
    obtain ⟨-, rfl⟩ := EStateM.Result.error.inj h
    exact hx s e' t hresult

/-- Nothing is left of an atomic computation that fails. -/
theorem outcome {x : EStateM ε σ α} (hx : Atomic x) {s : σ} {e : ε}
    (h : (TableVault.outcome x s).1 = .error e) : (TableVault.outcome x s).2 = s := by
  unfold TableVault.outcome at h ⊢
  cases hresult : x s with
  | ok a t =>
    rw [hresult] at h
    cases h
  | error e' t => exact hx s e' t hresult

end Atomic

/-! ### Closed storage -/

/-- Closed storage refuses an operation, and nothing happens. -/
def Barred [Visible σ] (x : StorageAction σ α) : Prop := ∀ s, view s = none → x s = .error .closed s

/-- A lawful backend in a process that does not die, which can be closed. After that it refuses
    every operation but being closed. -/
class Closable (σ : Type) [Backend σ] extends LawfulBackend σ where
  immortal : ¬ mortal
  close_eq (s : σ) : ∃ s', (Backend.close : StorageAction σ Unit) s = .ok () s' ∧ view s' = none
  get_still (table key : String) : Still (Backend.get table key : StorageAction σ _)
  tables_barred : Barred (Backend.tables : StorageAction σ _)
  countKeys_barred (table : String) : Barred (Backend.countKeys table : StorageAction σ _)
  keys_barred (table : String) : Barred (Backend.keys table : StorageAction σ _)
  get_barred (table key : String) : Barred (Backend.get table key : StorageAction σ _)
  set_barred (table key : String) (record : Bytes) :
    Barred (Backend.set table key record : StorageAction σ _)
  unset_barred (table key : String) : Barred (Backend.unset table key : StorageAction σ _)
  unsetMany_barred (table : String) (keys : List String) :
    Barred (Backend.unsetMany table keys : StorageAction σ _)
  dropTable_barred (base : String) : Barred (Backend.dropTable base : StorageAction σ _)

/-- An operation that open storage never fails and closed storage refuses is atomic. -/
theorem Barred.atomic [Backend σ] [Closable σ] {x : StorageAction σ α} (h : Barred x)
    (hruns : ∀ ts, ∃ a us cut, Runs x ts (.ok a) us cut) : Atomic x := by
  intro s e s' hx
  cases hview : view s with
  | none =>
    rw [h s hview] at hx
    exact (EStateM.Result.error.inj hx).2.symm
  | some ts =>
    obtain ⟨a, us, cut, hrun⟩ := hruns ts
    obtain ⟨t, ht, -⟩ := hrun.outcome Closable.immortal hview
    rw [ht] at hx
    cases hx

namespace Memory

/-- Looking never changes the state. -/
theorem read_still (f : Tables → α) : Still (read f) := by
  rintro ⟨tables?⟩
  cases tables? with
  | none => exact ⟨.error .closed, rfl⟩
  | some ts => exact ⟨.ok (f ts), rfl⟩

/-- Nothing is seen of closed storage. -/
theorem read_barred (f : Tables → α) : Barred (read f) := by
  rintro ⟨_⟩ rfl
  rfl

/-- Closed storage is not changed. -/
theorem write_barred (f : Tables → α × Tables) : Barred (write f) := by
  rintro ⟨_⟩ rfl
  rfl

instance : Closable Memory where
  immortal h := h
  close_eq _ := ⟨⟨none⟩, rfl, rfl⟩
  get_still _ _ := read_still _
  tables_barred := read_barred _
  countKeys_barred _ := read_barred _
  keys_barred _ := read_barred _
  get_barred _ _ := read_barred _
  set_barred _ _ _ := write_barred _
  unset_barred _ _ := write_barred _
  unsetMany_barred _ _ := write_barred _
  dropTable_barred _ := write_barred _

end Memory

namespace Durable

/-- Looking never changes the state. -/
theorem read_still (f : Tables → α) : Still (read f) := by
  intro d
  by_cases hopen : d.isOpen
  · exact ⟨.ok (f d.tables), if_pos hopen⟩
  · exact ⟨.error .closed, if_neg hopen⟩

/-- A handle that shows nothing has been closed. -/
theorem view_eq_none {d : Durable} (h : view d = none) : ¬ d.isOpen = true := by
  intro hopen
  rw [show view d = some d.tables from if_pos hopen] at h
  cases h

/-- Nothing is seen through a closed handle. -/
theorem read_barred (f : Tables → α) : Barred (read f) :=
  fun _ hd => if_neg (view_eq_none hd)

/-- Nothing is changed through a closed handle. -/
theorem write_barred (body : Transaction (Verdict × α)) : Barred (write body) :=
  fun _ hd => if_neg (view_eq_none hd)

instance : Closable Durable where
  immortal h := h
  close_eq d := ⟨{ d with isOpen := false }, rfl, rfl⟩
  get_still _ _ := read_still _
  tables_barred := read_barred _
  countKeys_barred _ := read_barred _
  keys_barred _ := read_barred _
  get_barred _ _ := read_barred _
  set_barred _ _ _ := write_barred _
  unset_barred _ _ := write_barred _
  unsetMany_barred _ _ := write_barred _
  dropTable_barred _ := write_barred _

end Durable

end TableVault.Storage
