import TableVault.Storage.Backend
import TableVault.Storage.Tables

namespace TableVault.Storage

/-!
# Storage in memory

* `Memory` — tables that are gone once the backend is closed;
* `Memory.empty` — a fresh one.
-/

/-- Tables in memory, or nothing once they have been closed. -/
structure Memory where
  tables? : Option Tables

namespace Memory

/-- A fresh, empty storage. -/
def empty : Memory := ⟨some ∅⟩

instance : Inhabited Memory := ⟨empty⟩

/-- Looks at the tables, if the storage is open. -/
def read {α : Type} (f : Tables → α) : StorageAction Memory α := fun m =>
  match m.tables? with
  | some ts => .ok (f ts) m
  | none => .error .closed m

/-- Changes the tables, if the storage is open. -/
def write {α : Type} (f : Tables → α × Tables) : StorageAction Memory α := fun m =>
  match m.tables? with
  | some ts => .ok (f ts).1 ⟨some (f ts).2⟩
  | none => .error .closed m

/-- Removes keys from records one after another, and counts those that were there. -/
def eraseCounting (records : Records) (keys : List String) : Nat × Records :=
  keys.foldl (fun (n, rs) key =>
    if rs.contains key then (n + 1, rs.erase key) else (n, rs)) (0, records)

instance : Backend Memory where
  name := "memory"
  tables := read Tables.names
  countKeys table := read fun ts => (ts.recordsOf table).size
  keys table := read fun ts => (ts.recordsOf table).keys
  get table key := read fun ts => ts.find? table key
  set table key record := write fun ts => ((), ts.put table key record)
  unset table key := write fun ts => ((), ts.remove table key)
  unsetMany table keys := write fun ts =>
    match ts[table]? with
    | none => (0, ts)
    | some records =>
      let (n, rest) := eraseCounting records keys
      (n, ts.insert table rest)
  dropTable table := write fun ts => ((), ts.dropSubtree table)
  close := fun _ => .ok () ⟨none⟩

end Memory

end TableVault.Storage
