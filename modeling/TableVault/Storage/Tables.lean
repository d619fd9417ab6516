import Std.Data.ExtTreeMap
import TableVault.Bytes

namespace TableVault.Storage

/-!
# Tables of records

Backends know a flat set of tables. A table of a nested namespace is named by its
path, the segments joined by a separator that no segment contains.

* `separator` — the character between the segments of a name;
* `systemTable` — the table that keeps the lock record and the reset marker. Its name
  starts with the separator, so it is no path of non-empty segments;
* `inSubtree` — whether a name is a given one or lies beneath it;
* `Records` — records by key, in increasing order of the keys;
* `Tables` — tables by name, in increasing order of the names. Characters are
  ordered by their numbers, which is also the order of their UTF-8 bytes.

A table that has lost all its records is still there.
-/

/-! ### Names -/

/-- The character between the segments of a table name. -/
def separator : Char := '\u001f'

/-- The table that keeps the lock record and the reset marker. -/
def systemTable : String := "\u001fkvnest"

/-- Whether `candidate` is `base`, or `base` followed by the separator and more.
    Nothing lies beneath the empty name. -/
def inSubtree (candidate base : String) : Bool :=
  if base = "" then false
  else
    match base.toList.isPrefixOf? candidate.toList with
    | some [] => true
    | some (c :: _) => c == separator
    | none => false

/-- Whether a name is that of the system table. -/
def isSystem (name : String) : Bool :=
  name == systemTable

/-! ### Contents -/

/-- Records by key. -/
abbrev Records := Std.ExtTreeMap String Bytes

/-- Tables by name. -/
abbrev Tables := Std.ExtTreeMap String Records

namespace Tables

/-- The records of a table, none if it does not exist. -/
def recordsOf (ts : Tables) (table : String) : Records :=
  ts.getD table ∅

/-- The record at a key of a table. -/
def find? (ts : Tables) (table key : String) : Option Bytes :=
  (ts.recordsOf table)[key]?

/-- The names of all tables but the system table. -/
def names (ts : Tables) : List String :=
  ts.keys.filter fun name => !isSystem name

/-- Puts a record at a key of a table, which is created if it does not exist. -/
def put (ts : Tables) (table key : String) (record : Bytes) : Tables :=
  ts.insert table ((ts.recordsOf table).insert key record)

/-- Removes the record at a key of a table. Nothing is created. -/
def remove (ts : Tables) (table key : String) : Tables :=
  ts.modify table (·.erase key)

/-- Removes a table and all tables beneath it. -/
def dropSubtree (ts : Tables) (base : String) : Tables :=
  ts.filter fun name _ => !inSubtree name base

end Tables

end TableVault.Storage
