import TableVault.Proofs.Storage.Handles
import TableVault.Proofs.Text.Utf8Order

namespace TableVault.Storage

/-!
# The two kinds of storage are alike

* `Operation` and `Operation.run` — what a backend can be asked to do, and doing it;
* `Operation.effect` — what an operation answers and leaves, as a function of the tables,
  of which there are none once the storage has been closed;
* `Memory.operation_effect` and `Durable.operation_effect` — either kind of storage has
  these effects;
* `Contract` — what every backend promises about its listings and about dropping tables,
  said by its operations alone;
* `backends_agree` — the two kinds of storage answer every sequence of operations alike,
  and keep the contract as long as they are open.
-/

/-! ### Operations -/

/-- What a backend can be asked to do. -/
inductive Operation where
  | tables
  | countKeys (table : String)
  | keys (table : String)
  | get (table key : String)
  | set (table key : String) (record : Bytes)
  | unset (table key : String)
  | unsetMany (table : String) (keys : List String)
  | dropTable (table : String)
  | close
  deriving DecidableEq, Repr

/-- What a backend answers. -/
inductive Reply where
  | done
  | names (names : List String)
  | count (n : Nat)
  | record (record : Option Bytes)
  deriving DecidableEq, Repr

namespace Operation

/-- Does an operation. -/
def run {σ : Type} [Backend σ] : Operation → StorageAction σ Reply
  | .tables => return .names (← Backend.tables)
  | .countKeys table => return .count (← Backend.countKeys table)
  | .keys table => return .names (← Backend.keys table)
  | .get table key => return .record (← Backend.get table key)
  | .set table key record => do Backend.set table key record; return .done
  | .unset table key => do Backend.unset table key; return .done
  | .unsetMany table doomed => return .count (← Backend.unsetMany table doomed)
  | .dropTable table => do Backend.dropTable table; return .done
  | .close => do Backend.close; return .done

/-- What an operation on open storage answers, and the tables that it leaves. -/
def change (ts : Tables) : Operation → Reply × Tables
  | .tables => (.names ts.names, ts)
  | .countKeys table => (.count (ts.recordsOf table).size, ts)
  | .keys table => (.names (ts.recordsOf table).keys, ts)
  | .get table key => (.record (ts.find? table key), ts)
  | .set table key record => (.done, ts.put table key record)
  | .unset table key => (.done, ts.remove table key)
  | .unsetMany table doomed => (.count (ts.countPresent table doomed), ts.removeKeys table doomed)
  | .dropTable table => (.done, ts.dropSubtree table)
  | .close => (.done, ts)

/-- What an operation answers, and the tables that it leaves. Closed storage has none, and
    can only be closed again. -/
def effect (op : Operation) : Option Tables → Except StorageError Reply × Option Tables
  | some ts => (.ok (op.change ts).1, if op = .close then none else some (op.change ts).2)
  | none => (if op = .close then .ok .done else .error .closed, none)

open LawfulBackend in
/-- On open lawful storage every operation but the last has its effect. -/
theorem run_runs {σ : Type} [Backend σ] [LawfulBackend σ] (ts : Tables) (op : Operation)
    (hop : op ≠ .close) :
    Runs (σ := σ) op.run ts (.ok (op.change ts).1) (op.change ts).2 {ts} := by
  have hlook : ∀ {α : Type} {x : StorageAction σ α} {a : α} (g : α → Reply),
      Runs x ts (.ok a) ts ∅ → Runs (do return g (← x)) ts (.ok (g a)) ts {ts} :=
    fun g h => (h.map g).mono (Set.empty_subset _)
  cases op with
  | tables => exact hlook _ (tables_runs ts)
  | countKeys table => exact hlook _ (countKeys_runs ts table)
  | keys table => exact hlook _ (keys_runs ts table)
  | get table key => exact hlook _ (get_runs ts table key)
  | set table key record => exact (set_runs ts table key record).map fun _ => Reply.done
  | unset table key => exact (unset_runs ts table key).map fun _ => Reply.done
  | unsetMany table doomed => exact (unsetMany_runs ts table doomed).map _
  | dropTable table => exact (dropTable_runs ts table).map fun _ => Reply.done
  | close => exact absurd rfl hop

/-- What an operation does to open storage of either kind, if closing it closes it. -/
theorem effect_of_open {σ : Type} [Backend σ] [LawfulBackend σ] (hm : ¬ mortal σ)
    (hclose : ∀ s : σ, (outcome (run .close) s).1 = .ok .done ∧
      view (outcome (run .close) s).2 = none)
    (op : Operation) {s : σ} {ts : Tables} (hs : view s = some ts) :
    (outcome op.run s).1 = (op.effect (view s)).1 ∧
      view (outcome op.run s).2 = (op.effect (view s)).2 := by
  rw [hs]
  by_cases hop : op = .close
  · subst hop
    exact hclose s
  · obtain ⟨s', hrun, hview⟩ := (run_runs ts op hop).outcome hm hs
    rw [outcome_of_answering hrun, effect, if_neg hop]
    exact ⟨rfl, hview⟩

end Operation

/-- Every operation has its effect on storage in memory. -/
theorem Memory.operation_effect (op : Operation) (m : Memory) :
    (outcome op.run m).1 = (op.effect (view m)).1 ∧
      view (outcome op.run m).2 = (op.effect (view m)).2 := by
  cases hm : view m with
  | some ts =>
    rw [← hm]
    exact Operation.effect_of_open (fun h => h) (fun _ => ⟨rfl, rfl⟩) op hm
  | none =>
    obtain rfl : m = ⟨none⟩ := congrArg Memory.mk hm
    cases op <;> exact ⟨rfl, rfl⟩

/-- Every operation has its effect on durable storage. -/
theorem Durable.operation_effect (op : Operation) (d : Durable) :
    (outcome op.run d).1 = (op.effect (view d)).1 ∧
      view (outcome op.run d).2 = (op.effect (view d)).2 := by
  cases hd : view d with
  | some ts =>
    rw [← hd]
    exact Operation.effect_of_open (fun h => h) (fun _ => ⟨rfl, rfl⟩) op hd
  | none =>
    obtain ⟨path, tables, isOpen⟩ := d
    cases isOpen with
    | true => cases hd
    | false => cases op <;> exact ⟨rfl, rfl⟩

/-- Every operation through a handle has its effect on the database that the handle
    sees. -/
theorem Disk.operation_effect (op : Operation) (h : Handle) (d : Disk) :
    (outcome (through h op.run) d).1 = (op.effect (view (d.connection h))).1 ∧
      view ((outcome (through h op.run) d).2.connection h) =
        (op.effect (view (d.connection h))).2 := by
  obtain ⟨hanswer, hview⟩ := Durable.operation_effect op (d.connection h)
  rw [outcome_through]
  refine ⟨hanswer, ?_⟩
  -- What a handle that has been closed leaves is the disk as it was.
  cases hd : view (d.connection h) with
  | some ts =>
    rw [view_connection_settle hd (Durable.view_eq_some hd).1, hview, hd]
  | none =>
    have hclosed : (d.connection h).isOpen = false := by
      cases hopen : (d.connection h).isOpen with
      | false => rfl
      | true =>
        rw [show view (d.connection h) = some (d.connection h).tables from if_pos hopen] at hd
        cases hd
    rw [settle_of_closed hclosed, hd]
    rfl

/-! ### The contract -/

section Contract

variable {σ : Type} [Backend σ]

/-- The answer to an operation. -/
def Operation.answer (op : Operation) (s : σ) : Except StorageError Reply :=
  (outcome op.run s).1

/-- The storage after an operation. -/
def Operation.after (op : Operation) (s : σ) : σ :=
  (outcome op.run s).2

/-- Names are strictly increasing in the order of their UTF-8 bytes. -/
def ByteSorted (names : List String) : Prop :=
  names.Pairwise fun a b => Utf8.encode a < Utf8.encode b

/-- What every open backend promises. -/
structure Contract (s : σ) : Prop where
  /-- Tables are listed in the order of their bytes, and the system table is not. -/
  tables : ∃ names, Operation.tables.answer s = .ok (.names names) ∧ ByteSorted names ∧
    systemTable ∉ names
  /-- Keys are listed in the order of their bytes, they are counted, and there is a record
      at each of them and at no other. -/
  keys : ∀ table, ∃ keys, (Operation.keys table).answer s = .ok (.names keys) ∧
    ByteSorted keys ∧ (Operation.countKeys table).answer s = .ok (.count keys.length) ∧
    ∀ key, ∃ record, (Operation.get table key).answer s = .ok (.record record) ∧
      (record.isSome ↔ key ∈ keys)
  /-- Dropping a table takes exactly the names beneath it from the listing. -/
  dropNames : ∀ base, ∃ names left, Operation.tables.answer s = .ok (.names names) ∧
    Operation.tables.answer ((Operation.dropTable base).after s) = .ok (.names left) ∧
    ∀ name, name ∈ left ↔ name ∈ names ∧ ¬ Beneath base name
  /-- Dropping a table takes the records of the tables beneath it, and no others. -/
  dropRecords : ∀ base table key,
    (Beneath base table →
      (Operation.get table key).answer ((Operation.dropTable base).after s) = .ok (.record none)) ∧
    (¬ Beneath base table →
      (Operation.get table key).answer ((Operation.dropTable base).after s) =
        (Operation.get table key).answer s)

variable [Visible σ] {s : σ} {ts : Tables}

/-- Storage on which the operations have their effects keeps the contract as long as it is
    open. -/
theorem contract_of_open
    (heffect : ∀ (op : Operation) (s : σ), (outcome op.run s).1 = (op.effect (view s)).1 ∧
      view (outcome op.run s).2 = (op.effect (view s)).2)
    (hs : view s = some ts) : Contract s := by
  have hanswer : ∀ {s : σ} {ts : Tables} (op : Operation), view s = some ts →
      op.answer s = .ok (op.change ts).1 := by
    intro s ts op hs
    rw [Operation.answer, (heffect op s).1, hs]
    rfl
  -- The contract asks what a second operation answers after a table has been dropped.
  have hdrop : ∀ base, view ((Operation.dropTable base).after s) = some (ts.dropSubtree base) := by
    intro base
    rw [Operation.after, (heffect _ s).2, hs]
    rfl
  have hsorted : ∀ {names : List String}, names.Pairwise (· < ·) → ByteSorted names :=
    fun h => h.imp Utf8.encode_lt_iff.mpr
  refine ⟨?_, ?_, ?_, ?_⟩
  · refine ⟨ts.names, hanswer .tables hs, hsorted ts.pairwise_names, ?_⟩
    intro hmem
    exact (ts.mem_names.mp hmem).2 rfl
  · intro table
    refine ⟨(ts.recordsOf table).keys, hanswer _ hs, hsorted (Records.pairwise_keys _), ?_, ?_⟩
    · rw [hanswer _ hs, Std.ExtTreeMap.length_keys]
      rfl
    · intro key
      refine ⟨ts.find? table key, hanswer _ hs, ?_⟩
      rw [Std.ExtTreeMap.mem_keys]
      exact Std.ExtTreeMap.isSome_getElem?_iff_mem
  · intro base
    refine ⟨ts.names, (ts.dropSubtree base).names, hanswer _ hs, hanswer _ (hdrop base), ?_⟩
    intro name
    rw [Tables.mem_names, Tables.mem_names, ← inSubtree_iff, ← Std.ExtTreeMap.isSome_getElem?_iff_mem,
      Tables.getElem?_dropSubtree, ← Std.ExtTreeMap.isSome_getElem?_iff_mem]
    cases inSubtree name base <;> simp
  · intro base table key
    rw [hanswer _ (hdrop base), hanswer _ hs, ← inSubtree_iff]
    show (_ → Except.ok (Reply.record _) = _) ∧ (_ → Except.ok (Reply.record _) = _)
    rw [Tables.find?_dropSubtree]
    exact ⟨fun h => by rw [if_pos h], fun h => by rw [if_neg h]; rfl⟩

end Contract

/-! ### The equivalence -/

/-- Storage stays open until it is closed. -/
theorem open_of_trace {σ : Type} [Visible σ] {step : Operation → σ → Except StorageError Reply × σ}
    (heffect : ∀ op s, view (step op s).2 = (op.effect (view s)).2) {ops : List Operation}
    (hops : .close ∉ ops) {s : σ} (hs : (view s).isSome) : (view (trace step ops s).2).isSome := by
  induction ops generalizing s with
  | nil => exact hs
  | cons op rest ih =>
    rw [List.mem_cons, not_or] at hops
    refine ih hops.2 ?_
    obtain ⟨ts, hts⟩ := Option.isSome_iff_exists.mp hs
    rw [heffect, hts, Operation.effect, if_neg (Ne.symm hops.1)]
    rfl

/-- **The two kinds of storage are alike.** Operations on fresh storage in memory and
    through a handle on a fresh database are answered alike, errors included. Both keep the
    contract until they are closed. -/
theorem backends_agree {d : Disk} {h : Handle} (hfresh : d.HoldsAt h ∅) (ops : List Operation) :
    (trace (fun op => outcome op.run) ops Memory.empty).1 =
        (trace (fun op => outcome (Disk.through h op.run)) ops d).1 ∧
      (.close ∉ ops →
        Contract (trace (fun op => outcome op.run) ops Memory.empty).2 ∧
        Contract ((trace (fun op => outcome (Disk.through h op.run)) ops d).2.connection h)) := by
  have hstart : view Memory.empty = view (d.connection h) := by
    rw [Disk.connection_of_holdsAt hfresh]
    rfl
  -- The simulation: both kinds of storage show the same tables, or none.
  obtain ⟨hanswers, hviews⟩ := trace_simulation
    (f := fun op : Operation => outcome op.run) (g := fun op => outcome (Disk.through h op.run))
    (R := fun (m : Memory) (d : Disk) => view m = view (d.connection h))
    (fun op m d hview => by
      obtain ⟨hm, hm'⟩ := Memory.operation_effect op m
      obtain ⟨hd, hd'⟩ := Disk.operation_effect op h d
      rw [hview] at hm hm'
      exact ⟨hm.trans hd.symm, hm'.trans hd'.symm⟩) ops hstart
  refine ⟨hanswers, fun hops => ?_⟩
  have hopen : (view (trace (fun op : Operation => outcome op.run) ops Memory.empty).2).isSome :=
    open_of_trace (fun op m => (Memory.operation_effect op m).2) hops rfl
  obtain ⟨ts, hts⟩ := Option.isSome_iff_exists.mp hopen
  exact ⟨contract_of_open Memory.operation_effect hts,
    contract_of_open Durable.operation_effect (hviews.symm.trans hts)⟩

/-- A file that is created is a fresh database, which agrees with fresh storage in memory
    and keeps the contract. -/
theorem backends_agree_created :
    let h : Handle := ⟨"vault", ["vault"], 0⟩
    let d := (Disk.empty.hold "vault" ["vault"] ∅).2
    let ops : List Operation := [.set "t" "k" [1], .unsetMany "t" ["k", "k"], .dropTable ""]
    Disk.attach "vault" Disk.empty = .ok h d ∧
      (trace (fun op => outcome op.run) ops Memory.empty).1 =
        (trace (fun op => outcome (Disk.through h op.run)) ops d).1 ∧
      Contract (trace (fun op => outcome op.run) ops Memory.empty).2 := by
  intro h d ops
  have hopen : Disk.attach "vault" Disk.empty = .ok h d := by rfl
  have hfresh : d.HoldsAt h ∅ := Disk.attach_new (by rfl) hopen
  obtain ⟨hanswers, hcontract⟩ := backends_agree hfresh ops
  exact ⟨hopen, hanswers, (hcontract (by decide)).1⟩

end TableVault.Storage
