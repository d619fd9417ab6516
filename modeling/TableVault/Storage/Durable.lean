import TableVault.Text.Quoted
import TableVault.Storage.Backend
import TableVault.Storage.Engine

namespace TableVault.Storage

/-!
# Durable storage

* `Durable` — the tables of a database file, seen through one handle. Closing the
  handle leaves the tables in the file.
* the transactions behind its operations, each of which is one write.
-/

/-- The tables of a database file, seen through a handle that may have been closed. -/
structure Durable where
  path : String
  tables : Tables
  isOpen : Bool

namespace Durable

/-! ### Write transactions -/

/-- Puts a record at a key of a table. -/
def setRecord (table key : String) (record : Bytes) : Transaction (Verdict × Unit) := do
  Transaction.openTable table
  Transaction.insert table key record
  return (.commit, ())

/-- Removes the record at a key of a table. An absent table is not opened, since that
    would create it. -/
def unsetRecord (table key : String) : Transaction (Verdict × Unit) := do
  if (← Transaction.listTables).contains table then
    Transaction.openTable table
    let _ ← Transaction.remove table key
    return (.commit, ())
  else return (.abort, ())

/-- Removes keys from an open table one after another, and counts those that were
    there. -/
def removeCounting (table : String) : List String → Transaction Nat
  | [] => return 0
  | key :: rest => do
    let present := (← Transaction.remove table key).isSome
    let n ← removeCounting table rest
    return if present then n + 1 else n

/-- Removes the records at some keys of a table, and counts them. -/
def unsetRecords (table : String) (keys : List String) : Transaction (Verdict × Nat) := do
  let present := (← Transaction.listTables).contains table
  if !present || keys.isEmpty then return (.abort, 0)
  else
    Transaction.openTable table
    let n ← removeCounting table keys
    return (.commit, n)

/-- Deletes tables one after another. -/
def deleteTables : List String → Transaction Unit
  | [] => return ()
  | table :: rest => do
    Transaction.deleteTable table
    deleteTables rest

/-- Removes a table and all tables beneath it. -/
def dropTables (base : String) : Transaction (Verdict × Unit) := do
  let doomed := (← Transaction.listTables).filter fun name => inSubtree name base
  if doomed.isEmpty then return (.abort, ())
  else
    deleteTables doomed
    return (.commit, ())

/-! ### The backend -/

/-- Looks at the committed tables, if the handle is open. -/
def read {α : Type} (f : Tables → α) : StorageAction Durable α := fun d =>
  if d.isOpen then .ok (f d.tables) d else .error .closed d

/-- Runs a write transaction, if the handle is open. -/
def write {α : Type} (body : Transaction (Verdict × α)) : StorageAction Durable α := fun d =>
  if d.isOpen then
    let (a, tables) := body.run d.tables
    .ok a { d with tables }
  else .error .closed d

instance : Backend Durable where
  name := "redb"
  tables := read Tables.names
  countKeys table := read fun ts => (ts.recordsOf table).size
  keys table := read fun ts => (ts.recordsOf table).keys
  get table key := read fun ts => ts.find? table key
  set table key record := write (setRecord table key record)
  unset table key := write (unsetRecord table key)
  unsetMany table keys := write (unsetRecords table keys)
  dropTable table := write (dropTables table)
  close := fun d => .ok () { d with isOpen := false }

/-- A handle as it is shown: the path of its file, and whether it is open. -/
def shown (d : Durable) : String :=
  "RedbBackend \x7b path: " ++ Quoted.quote d.path ++ ", open: " ++
    (if d.isOpen then "true" else "false") ++ " \x7d"

end Durable

end TableVault.Storage
