import TableVault.Bytes
import TableVault.Storage.Error

namespace TableVault.Storage

/-!
# Backends

* `StorageAction` — computations that change a backend and may fail; a failure
  leaves the backend as it was at that moment;
* `Backend` — what every kind of storage offers.

The contract: tables and keys are listed in increasing order, the system table is
never listed, an absent table reads as an empty one, removing what is not there
succeeds, and after `close` every operation but `close` and `name` fails.
-/

/-- A computation on a backend of type `σ`. -/
abbrev StorageAction (σ : Type) := EStateM StorageError σ

/-- A flat store of tables of records. -/
class Backend (σ : Type) where
  /-- The name of this kind of backend. -/
  name : String
  /-- The names of all tables but the system table. -/
  tables : StorageAction σ (List String)
  /-- The number of keys of a table. -/
  countKeys (table : String) : StorageAction σ Nat
  /-- The keys of a table. -/
  keys (table : String) : StorageAction σ (List String)
  /-- The record at a key of a table. -/
  get (table key : String) : StorageAction σ (Option Bytes)
  /-- Puts a record at a key of a table, creating the table. -/
  set (table key : String) (record : Bytes) : StorageAction σ Unit
  /-- Removes the record at a key of a table. -/
  unset (table key : String) : StorageAction σ Unit
  /-- Removes the records at some keys of a table in one write, and counts them. -/
  unsetMany (table : String) (keys : List String) : StorageAction σ Nat
  /-- Removes a table and all tables beneath it. -/
  dropTable (table : String) : StorageAction σ Unit
  /-- Gives up the storage. -/
  close : StorageAction σ Unit

end TableVault.Storage
