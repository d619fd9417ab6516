import Mathlib
import TableVault.Proofs.Storage.Tables
import TableVault.Storage.Durable
import TableVault.Storage.Memory

namespace TableVault.Storage

/-!
# Both kinds of storage change the tables alike

The storage in memory changes its tables in place, the durable one lists, opens, changes
and commits or aborts inside a transaction. This file proves that both make the changes
of `Proofs.Storage.Tables`:

* `Durable.run_setRecord`, `Durable.run_unsetRecord`, `Durable.run_unsetRecords` and
  `Durable.run_dropTables` — what each transaction answers and leaves;
* `Memory.unsetMany_eq` — what the removal of several records in memory answers and
  leaves.
-/

namespace Durable

/-! ### Opening tables -/

/-- The working copy after a table has been opened. -/
private def opened (ts : Tables) (table : String) : Tables :=
  if ts.contains table then ts else ts.insert table ∅

/-- A table that has been opened is there. -/
private theorem getElem?_opened (ts : Tables) (table name : String) :
    (opened ts table)[name]? = if name = table then some (ts.recordsOf table) else ts[name]? := by
  rw [Tables.recordsOf_eq, opened]
  by_cases hmem : table ∈ ts
  · rw [if_pos (by simpa using hmem)]
    split
    · next h =>
      obtain ⟨records, hr⟩ := Option.isSome_iff_exists.mp
        (Std.ExtTreeMap.isSome_getElem?_iff_mem.mpr hmem)
      rw [h, hr, Option.getD_some]
    · rfl
  · have hnone : ts[table]? = none := Std.ExtTreeMap.getElem?_eq_none hmem
    rw [if_neg (by simpa using hmem), Std.ExtTreeMap.getElem?_insert, hnone, Option.getD_none]
    simp only [compare_eq_iff_eq, eq_comm (a := table)]

/-- Opening a table that is there changes nothing. -/
private theorem opened_of_mem {ts : Tables} {table : String} (h : table ∈ ts) :
    opened ts table = ts :=
  if_pos (by simpa using h)

/-! ### Single records -/

/-- Storing a record commits the table with the record in it. -/
theorem run_setRecord (ts : Tables) (table key : String) (record : Bytes) :
    (setRecord table key record).run ts = ((), ts.put table key record) := by
  refine Prod.ext rfl (Std.ExtTreeMap.ext_getElem? fun name => ?_)
  show ((opened ts table).modify table (·.insert key record))[name]? = _
  rw [Tables.getElem?_put, Std.ExtTreeMap.getElem?_modify]
  simp only [compare_eq_iff_eq, getElem?_opened, if_true, Option.map_some, eq_comm (a := table)]
  by_cases h : name = table
  · rw [if_pos h, if_pos h]
  · rw [if_neg h, if_neg h, if_neg h]

/-- Removing a record leaves an absent table absent. -/
theorem run_unsetRecord (ts : Tables) (table key : String) :
    (unsetRecord table key).run ts = ((), ts.remove table key) := by
  -- The transaction opens the table only if it is listed, and aborts otherwise.
  have hstep : unsetRecord table key ts =
      if ts.keys.contains table then
        ((.commit, ()), (opened ts table).modify table (·.erase key))
      else ((.abort, ()), ts) := by
    show (if ts.keys.contains table then _ else _ : Transaction _) ts = _
    split <;> rfl
  rw [Transaction.run, hstep]
  by_cases h : table ∈ ts
  · rw [if_pos (by simpa using h), opened_of_mem h]
    rfl
  · rw [if_neg (by simpa using h)]
    -- Removing one record is removing a list of one.
    have hsame := Tables.removeKeys_of_not_mem h [key]
    rw [Tables.removeKeys_cons, Tables.removeKeys_nil] at hsame
    exact Prod.ext rfl hsame.symm

/-! ### Several records -/

/-- Counted removals remove the records at all the keys, and count each that was there
    once. -/
theorem removeCounting_eq (ts : Tables) (table : String) (keys : List String) :
    removeCounting table keys ts = (ts.countPresent table keys, ts.removeKeys table keys) := by
  induction keys generalizing ts with
  | nil =>
    rw [Tables.removeKeys_nil]
    exact Prod.ext (by simp [removeCounting, Tables.countPresent, pure, StateT.pure]) rfl
  | cons key rest ih =>
    -- Whether a record was there is seen before it is removed, so a key that comes twice
    -- counts once.
    have hstep : removeCounting table (key :: rest) ts =
        (if (ts.find? table key).isSome then (removeCounting table rest (ts.remove table key)).1 + 1
          else (removeCounting table rest (ts.remove table key)).1,
          (removeCounting table rest (ts.remove table key)).2) := rfl
    have hpresent : (ts.find? table key).isSome = (ts.recordsOf table).contains key :=
      Std.ExtTreeMap.isSome_getElem?_eq_contains
    rw [hstep, ih, Tables.removeKeys_cons, hpresent, Tables.countPresent, Tables.countPresent,
      Records.countAmong_cons, Tables.recordsOf_remove]
    split <;> rfl

/-- Removing several records leaves an absent table absent, and counts nothing there. -/
theorem run_unsetRecords (ts : Tables) (table : String) (keys : List String) :
    (unsetRecords table keys).run ts = (ts.countPresent table keys, ts.removeKeys table keys) := by
  have hstep : unsetRecords table keys ts =
      if !ts.keys.contains table || keys.isEmpty then ((.abort, 0), ts)
      else ((.commit, (removeCounting table keys (opened ts table)).1),
        (removeCounting table keys (opened ts table)).2) := by
    show (if !ts.keys.contains table || keys.isEmpty then _ else _ : Transaction _) ts = _
    split <;> rfl
  rw [Transaction.run, hstep]
  by_cases h : table ∈ ts
  · have hlisted : ts.keys.contains table = true := by simpa using h
    cases keys with
    | nil =>
      rw [hlisted, Tables.removeKeys_nil]
      simp [Tables.countPresent]
    | cons key rest =>
      rw [hlisted, opened_of_mem h, removeCounting_eq]
      rfl
  · have hlisted : ts.keys.contains table = false := by simpa using h
    have hnone : ts.recordsOf table = ∅ := by
      rw [Tables.recordsOf_eq, Std.ExtTreeMap.getElem?_eq_none h, Option.getD_none]
    rw [hlisted, Tables.removeKeys_of_not_mem h, Tables.countPresent, hnone]
    simp

/-! ### Whole tables -/

/-- Deleting tables leaves those that were not named. -/
private theorem deleteTables_getElem? (ts : Tables) (doomed : List String) (name : String) :
    (deleteTables doomed ts).2[name]? = if name ∈ doomed then none else ts[name]? := by
  induction doomed generalizing ts with
  | nil => rfl
  | cons table rest ih =>
    show (deleteTables rest (ts.erase table)).2[name]? = _
    rw [ih, Std.ExtTreeMap.getElem?_erase]
    simp only [compare_eq_iff_eq, List.mem_cons, eq_comm (a := table)]
    by_cases hrest : name ∈ rest
    · simp [hrest]
    · simp [hrest]

/-- Dropping a table takes it and what lies beneath it out in one transaction. -/
theorem run_dropTables (ts : Tables) (base : String) :
    (dropTables base).run ts = ((), ts.dropSubtree base) := by
  have hstep : dropTables base ts =
      if (ts.keys.filter fun name => inSubtree name base).isEmpty then ((.abort, ()), ts)
      else ((.commit, ()), (deleteTables (ts.keys.filter fun name => inSubtree name base) ts).2) := by
    show (if (ts.keys.filter fun name => inSubtree name base).isEmpty then _ else _ :
      Transaction _) ts = _
    split <;> rfl
  rw [Transaction.run, hstep]
  -- A name that is not in the file is neither deleted nor found.
  have hname : ∀ name : String, (deleteTables (ts.keys.filter fun name => inSubtree name base) ts).2[name]? =
      (ts.dropSubtree base)[name]? := by
    intro name
    rw [deleteTables_getElem?, Tables.getElem?_dropSubtree]
    by_cases hmem : name ∈ ts
    · simp [hmem]
    · simp [hmem]
  by_cases hempty : (ts.keys.filter fun name => inSubtree name base).isEmpty
  · rw [if_pos hempty]
    rw [List.isEmpty_iff.mp hempty] at hname
    exact Prod.ext rfl (Std.ExtTreeMap.ext_getElem? hname)
  · rw [if_neg hempty]
    exact Prod.ext rfl (Std.ExtTreeMap.ext_getElem? hname)

end Durable

/-! ### Removals in memory -/

namespace Memory

/-- Counted removals leave what is not at one of the keys, and count what has gone. -/
theorem eraseCounting_eq (records : Records) (keys : List String) :
    eraseCounting records keys = (Records.countAmong records keys, Records.without records keys) := by
  -- The count so far is carried along, so the induction is over any count to start from.
  have hfold : ∀ n : Nat, keys.foldl (fun p key =>
      if p.2.contains key then (p.1 + 1, p.2.erase key) else p) (n, records) =
      (n + Records.countAmong records keys, Records.without records keys) := by
    induction keys generalizing records with
    | nil => intro n; simp
    | cons key rest ih =>
      intro n
      rw [List.foldl_cons, Records.without_cons, Records.countAmong_cons]
      by_cases h : records.contains key = true
      · -- The record counts, and the others are counted without it.
        simp only [h, if_true, ih]
        refine Prod.ext ?_ rfl
        show n + 1 + _ = _
        omega
      · -- Erasing a key that is not there changes nothing.
        have hsame : records.erase key = records := by
          apply Std.ExtTreeMap.ext_getElem?
          intro other
          simp only [Std.ExtTreeMap.getElem?_erase, compare_eq_iff_eq]
          split
          · next heq =>
            subst heq
            exact (Std.ExtTreeMap.getElem?_eq_none (by simpa using h)).symm
          · rfl
        simp only [h, hsame, ih, Bool.false_eq_true, if_false, Nat.add_zero]
  rw [← Nat.zero_add (Records.countAmong records keys)]
  exact hfold 0

/-- Removing several records leaves an absent table absent, and counts nothing there. -/
theorem unsetMany_eq (ts : Tables) (table : String) (keys : List String) :
    (match ts[table]? with
      | none => (0, ts)
      | some records =>
        let (n, rest) := eraseCounting records keys
        (n, ts.insert table rest)) = (ts.countPresent table keys, ts.removeKeys table keys) := by
  cases h : ts[table]? with
  | none =>
    have hmem : table ∉ ts := fun hmem => by
      rw [← Std.ExtTreeMap.isSome_getElem?_iff_mem, h] at hmem
      simp at hmem
    rw [Tables.removeKeys_of_not_mem hmem, Tables.countPresent, Tables.recordsOf_eq, h]
    simp
  | some records =>
    simp only [eraseCounting_eq]
    refine Prod.ext ?_ (Std.ExtTreeMap.ext_getElem? fun name => ?_)
    · rw [Tables.countPresent, Tables.recordsOf_eq, h, Option.getD_some]
    · rw [Tables.getElem?_removeKeys]
      simp only [Std.ExtTreeMap.getElem?_insert, compare_eq_iff_eq]
      by_cases hname : name = table
      · rw [if_pos hname.symm, if_pos hname, h]; rfl
      · rw [if_neg (Ne.symm hname), if_neg hname]

end Memory

end TableVault.Storage
