import TableVault.Cbor.Shape
import TableVault.Storage.Tables

namespace TableVault.Storage.Image

/-!
# Images of database files

* `encode` — the content of a database file: a map from table names to maps from keys
  to records, marked as a self-described value;
* `decode?` — reads such a content back; anything else is no database.
-/

open Cbor

/-- The tag of a value that describes itself. -/
def mark : UInt64 := 55799

/-- The records of a table as a value. -/
def recordsValue (records : Records) : Value :=
  .map (records.toList.map fun r => (.text r.1, .bytes r.2))

/-- All tables as a value. -/
def tablesValue (ts : Tables) : Value :=
  .tag mark (.map (ts.toList.map fun t => (.text t.1, recordsValue t.2)))

/-- The content of a database file. -/
def encode (ts : Tables) : Bytes :=
  (tablesValue ts).encode

/-- Records from the entries of a map. -/
def recordsOf? : List (Value × Value) → Option Records
  | [] => some ∅
  | (.text key, .bytes record) :: rest => do
    let records ← recordsOf? rest
    return records.insert key record
  | _ => none

/-- Tables from the entries of a map. -/
def tablesOf? : List (Value × Value) → Option Tables
  | [] => some ∅
  | (.text name, .map entries) :: rest => do
    let records ← recordsOf? entries
    let tables ← tablesOf? rest
    return tables.insert name records
  | _ => none

/-- The tables of the content of a database file. -/
def decode? (b : Bytes) : Option Tables :=
  match fromCbor? .value b with
  | .ok (.tag t (.map entries)) => if t = mark then tablesOf? entries else none
  | _ => none

end TableVault.Storage.Image
