import TableVault.Store

namespace TableVault.Inspect

/-!
# Looking around in a vault

* `descend` — the handle at a path whose segments are joined by slashes; empty segments
  do not count;
* `displayNamespace` — such a path as it is shown;
* `tables`, `keys` and `namespaces` — what there is at a path, without reading a value.
-/

open Storage

/-- The segments of a path that are not empty. -/
def pathSegments (path : String) : List String :=
  ((pieces '/' path.toList).filter (· ≠ [])).map String.ofList

/-- The handle reached from a store by some segments. -/
def descendThrough (s : Store) : List String → Except VaultError Store
  | [] => .ok s
  | segment :: rest => do descendThrough (← s.sub segment) rest

/-- The handle at a path below a store; no path is the empty one. -/
def descend (s : Store) (path : Option String) : Except VaultError Store :=
  descendThrough s (pathSegments (path.getD ""))

/-- A text without the slashes at its ends. -/
def trimSlashes (cs : List Char) : List Char :=
  ((cs.dropWhile (· = '/')).reverse.dropWhile (· = '/')).reverse

/-- A path as it is shown: with one slash in front and none at the end. -/
def displayNamespace (path : Option String) : String :=
  "/" ++ String.ofList (trimSlashes (path.getD "").toList)

/-- A table and the number of its keys. -/
structure TableStats where
  name : String
  keys : Nat
  deriving DecidableEq, Repr

/-- The tables of a namespace. -/
structure TablesReport where
  namespacePath : String
  tables : List TableStats
  deriving DecidableEq, Repr

/-- A key, whether its record is encrypted, and the bytes in the record, flag included. -/
structure KeyInfo where
  key : String
  encrypted : Bool
  size : Nat
  deriving DecidableEq, Repr

/-- What lies below a namespace, with slashes between the segments. -/
structure NamespacesReport where
  namespacePath : String
  namespaces : List String
  deriving DecidableEq, Repr

variable {σ : Type} [Backend σ]

/-- The key counts of some tables of a place. -/
def tableStats (s : Store) : List String → Action σ (List TableStats)
  | [] => return []
  | name :: rest => do
    let keys ← s.countKeys name
    return ⟨name, keys⟩ :: (← tableStats s rest)

/-- The tables at a path, with their key counts. -/
def tables (s : Store) (path : Option String) : Action σ TablesReport := do
  let place ← Action.ofExcept (descend s path)
  let stats ← tableStats place (← place.tables)
  return ⟨displayNamespace path, stats⟩

/-- What there is to say about some keys of a table. A key whose record has gone since
    it was listed is left out. -/
def keyInfos (s : Store) (table : String) : List String → Action σ (List KeyInfo)
  | [] => return []
  | key :: rest => do
    match ← s.rawGet table key with
    | none => keyInfos s table rest
    | some record =>
      return ⟨key, Record.isEncrypted record, record.length⟩ :: (← keyInfos s table rest)

/-- The keys of a table at a path. -/
def keys (s : Store) (path : Option String) (table : String) : Action σ (List KeyInfo) := do
  let place ← Action.ofExcept (descend s path)
  keyInfos place table (← place.keys table)

/-- A backend name with slashes for separators. -/
def withSlashes (name : String) : String :=
  String.ofList (name.toList.map fun c => if c = separator then '/' else c)

/-- What lies below a path: the namespaces one segment below, or every nested table. -/
def namespaces (s : Store) (path : Option String) (all : Bool) : Action σ NamespacesReport := do
  let place ← Action.ofExcept (descend s path)
  let found ← place.namespaces (!all)
  return ⟨displayNamespace path, found.map withSlashes⟩

end TableVault.Inspect
