import TableVault.Proofs.Storage.Lawful
import TableVault.Proofs.Trace

namespace TableVault.Storage

/-!
# Storage in a process that dies

* `Mortal` — a storage in a process that has breath for so many writes, and dies in front
  of the next. A write that has been made stays;
* `cutShort` — the storage that is left of a program that was cut short;
* `Runs.cutShort_view` — on lawful storage a program leaves the tables of its end, or
  tables of its cut;
* `cutShort_write_bind` — breath for one write more reaches past the first write.
-/

/-- A storage in a process that dies in front of a write. -/
structure Mortal (σ : Type) where
  inner : σ
  /-- How many writes are left. -/
  breath : Nat

namespace Mortal

variable {σ α : Type}

/-- Looks at the storage. -/
def read (x : StorageAction σ α) : StorageAction (Mortal σ) α := fun m =>
  match x m.inner with
  | .ok a s => .ok a { m with inner := s }
  | .error e s => .error e { m with inner := s }

/-- Writes to the storage, or dies. -/
def write (x : StorageAction σ α) : StorageAction (Mortal σ) α := fun m =>
  match m.breath with
  | 0 => .error (.engine "out of breath") m
  | n + 1 =>
    match x m.inner with
    | .ok a s => .ok a ⟨s, n⟩
    | .error e s => .error e ⟨s, n⟩

instance [Backend σ] : Backend (Mortal σ) where
  name := Backend.name σ
  tables := read Backend.tables
  countKeys table := read (Backend.countKeys table)
  keys table := read (Backend.keys table)
  get table key := read (Backend.get table key)
  set table key record := write (Backend.set table key record)
  unset table key := write (Backend.unset table key)
  unsetMany table keys := write (Backend.unsetMany table keys)
  dropTable table := write (Backend.dropTable table)
  close := read Backend.close

instance [Visible σ] : Visible (Mortal σ) := ⟨fun m => view m.inner, True⟩

section Lawful

variable [Visible σ] {ts us : Tables} {a : α} {x : StorageAction σ α}

/-- A look does what it does on the storage inside. -/
theorem read_runs {cut : Set Tables} (h : Runs x ts (.ok a) us cut) :
    Runs (read x) ts (.ok a) us cut := by
  intro m hm
  rcases h m.inner hm with ⟨s, hx, hv⟩ | ⟨-, e, s, vs, hx, hv, hc⟩
  -- Looking takes no breath, so only the storage inside can fail.
  · refine .inl ⟨{ m with inner := s }, ?_, hv⟩
    rw [read, hx]
    rfl
  · refine .inr ⟨trivial, e, { m with inner := s }, vs, ?_, hv, hc⟩
    rw [read, hx]

/-- A write does what it does on the storage inside, or the process dies first. -/
theorem write_runs (h : Runs x ts (.ok a) us {ts}) : Runs (write x) ts (.ok a) us {ts} := by
  rintro ⟨s, breath⟩ hs
  cases breath with
  | zero => exact .inr ⟨trivial, _, _, ts, rfl, hs, rfl⟩
  | succ n =>
    rcases h s hs with ⟨s', hx, hv⟩ | ⟨-, e, s', vs, hx, hv, hc⟩
    · refine .inl ⟨⟨s', n⟩, ?_, hv⟩
      simp only [write, hx, answering]
    · refine .inr ⟨trivial, e, ⟨s', n⟩, vs, ?_, hv, hc⟩
      simp only [write, hx]

end Lawful

open LawfulBackend in
instance [Backend σ] [LawfulBackend σ] : LawfulBackend (Mortal σ) where
  tables_runs ts := read_runs (tables_runs ts)
  countKeys_runs ts table := read_runs (countKeys_runs ts table)
  keys_runs ts table := read_runs (keys_runs ts table)
  get_runs ts table key := read_runs (get_runs ts table key)
  set_runs ts table key record := write_runs (set_runs ts table key record)
  unset_runs ts table key := write_runs (unset_runs ts table key)
  unsetMany_runs ts table keys := write_runs (unsetMany_runs ts table keys)
  dropTable_runs ts base := write_runs (dropTable_runs ts base)

end Mortal

/-! ### Programs cut short -/

variable {σ ε α β : Type}

/-- The storage that is left when a process dies after `n` writes of a program. -/
def cutShort (n : Nat) (x : EStateM ε (Mortal σ) α) (s : σ) : σ :=
  (outcome x ⟨s, n⟩).2.inner

/-- A program that is cut short leaves the tables of its end, or tables of its cut. -/
theorem Runs.cutShort_view [Visible σ] {x : EStateM ε (Mortal σ) α} {ts us : Tables}
    {r : Except ε α} {cut : Set Tables} (h : Runs x ts r us cut) (n : Nat) {s : σ}
    (hs : view s = some ts) :
    ∃ vs, view (cutShort n x s) = some vs ∧ (vs = us ∨ vs ∈ cut) := by
  rcases h ⟨s, n⟩ hs with ⟨m, hx, hv⟩ | ⟨-, e, m, vs, hx, hv, hc⟩
  · refine ⟨us, ?_, .inl rfl⟩
    rw [cutShort, outcome_of_answering hx]
    exact hv
  · refine ⟨vs, ?_, .inr hc⟩
    rw [cutShort, TableVault.outcome, hx]
    exact hv

/-- A program that begins with a write goes on after it with one write less. -/
theorem cutShort_write_bind {x : StorageAction σ α} {f : α → Action (Mortal σ) β} {s s' : σ} {a : α}
    (hx : x s = .ok a s') (n : Nat) :
    cutShort (n + 1) (do f (← Action.ofStorage (Mortal.write x))) s = cutShort n (f a) s' := by
  have hwrite : Mortal.write x ⟨s, n + 1⟩ = .ok a ⟨s', n⟩ := by
    simp only [Mortal.write, hx]
  have hbind := bind_of_ok (ofStorage_of_ok hwrite) f
  rw [cutShort, cutShort, outcome, outcome, hbind]

end TableVault.Storage
