import TableVault.Storage.Tables

namespace TableVault.Storage

/-!
# Transactions

The durable backend keeps its tables in an engine with atomic transactions.

* `Transaction` — a computation on the working copy of a write transaction;
* `Transaction.run` — a transaction that commits replaces the tables by its working
  copy, one that aborts leaves no trace;
* the steps of a transaction: `listTables`, `openTable`, `insert`, `remove` and
  `deleteTable`.

A read transaction sees the committed tables and needs no steps of its own.
-/

/-- How a transaction ends. -/
inductive Verdict where
  | commit
  | abort
  deriving DecidableEq, Repr

/-- A computation on the working copy of a write transaction. -/
abbrev Transaction := StateM Tables

namespace Transaction

/-- The names of all tables, the system table included. -/
def listTables : Transaction (List String) := fun ts => (ts.keys, ts)

/-- Makes sure that a table exists. -/
def openTable (table : String) : Transaction Unit := fun ts =>
  ((), if ts.contains table then ts else ts.insert table ∅)

/-- Puts a record at a key of an open table. -/
def insert (table key : String) (record : Bytes) : Transaction Unit := fun ts =>
  ((), ts.modify table (·.insert key record))

/-- Removes the record at a key of an open table, and returns it. -/
def remove (table key : String) : Transaction (Option Bytes) := fun ts =>
  (ts.find? table key, ts.modify table (·.erase key))

/-- Deletes a table. -/
def deleteTable (table : String) : Transaction Unit := fun ts =>
  ((), ts.erase table)

/-- Runs a write transaction on the committed tables. -/
def run {α : Type} (body : Transaction (Verdict × α)) (ts : Tables) : α × Tables :=
  match body ts with
  | ((.commit, a), working) => (a, working)
  | ((.abort, a), _) => (a, ts)

end Transaction

end TableVault.Storage
