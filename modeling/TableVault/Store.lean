import TableVault.Namespace
import TableVault.Padlock
import TableVault.Record.Encoder

namespace TableVault

/-!
# Stores

* `Store` — a handle on an open vault at a place in its tree of namespaces. All handles
  on a vault share its backend, which is the state of their actions;
* `Store.withBackend` — unlocks a backend; one that cannot be unlocked is closed;
* `Store.sub` / `Store.bucket` — handles at other places;
* the operations on the tables of that place: `tables`, `namespaces`, `drop`,
  `countKeys`, `keys`, `set`, `unset`, `get`, `rawGet` and `contains`.

An operation checks the table name first and then, if it writes, encodes the content;
only then does it reach the backend.
-/

open Storage Record

/-- A handle on an open vault at a place in its tree of namespaces. -/
structure Store where
  encoder : Encoder
  position : Namespace

namespace Store

/-- The handle at the top of a vault. -/
def ofMaster (master : Crypto.MasterKey) : Store :=
  ⟨.ofMaster master, .root⟩

variable {σ : Type} [Backend σ]

/-- Unlocks a backend with a padlock, and closes the backend if that fails. -/
def withBackend (fresh : Fresh) (padlock : Bytes) : Action σ Store := fun s =>
  match Padlock.unlock fresh padlock s with
  | .ok master s => .ok (ofMaster master) s
  | .error e s =>
    match Action.ofStorage (Backend.close : StorageAction σ Unit) s with
    | .ok _ s => .error e s
    | .error _ s => .error e s

/-! ### Moving in the tree -/

/-- The stem of the place of a handle. -/
def stem (s : Store) : String := s.position.stem

/-- The handle one segment below. -/
def sub (s : Store) (name : String) : Except VaultError Store := do
  return { s with position := ← s.position.sub name }

/-- The handle at a shared bucket. -/
def bucket (s : Store) (name : String) : Except VaultError Store := do
  return { s with position := ← Namespace.shared name }

/-! ### Operations -/

/-- Runs a backend operation on a table of the place of a handle. -/
def onTable {α : Type} (s : Store) (table : String) (x : String → StorageAction σ α) :
    Action σ α := do
  let name ← Action.ofExcept (s.position.qualify table)
  Action.ofStorage (x name)

/-- The tables of the place. -/
def tables (s : Store) : Action σ (List String) := do
  return s.position.childTables (← Action.ofStorage Backend.tables)

/-- What lies in namespaces below the place. -/
def namespaces (s : Store) (limitDepth : Bool) : Action σ (List String) := do
  return s.position.subNamespaces limitDepth (← Action.ofStorage Backend.tables)

/-- Removes a table, and the namespace of the same name with all that lies in it. -/
def drop (s : Store) (table : String) : Action σ Unit :=
  s.onTable table Backend.dropTable

/-- The number of keys of a table. -/
def countKeys (s : Store) (table : String) : Action σ Nat :=
  s.onTable table Backend.countKeys

/-- The keys of a table. -/
def keys (s : Store) (table : String) : Action σ (List String) :=
  s.onTable table Backend.keys

/-- Stores content at a key of a table, encrypted if asked for. -/
def put (s : Store) (table key : String) (content : Content) (encrypt : Bool) :
    Action σ Unit := do
  let name ← Action.ofExcept (s.position.qualify table)
  let record ← Action.ofCodec (s.encoder.encode content encrypt)
  Action.ofStorage (Backend.set name key record)

/-- Stores plain content at a key of a table. -/
def set (s : Store) (table key : String) (content : Content) : Action σ Unit :=
  s.put table key content false

/-- Stores encrypted content at a key of a table. -/
def cryptSet (s : Store) (table key : String) (content : Content) : Action σ Unit :=
  s.put table key content true

/-- Removes the record at a key of a table. -/
def unset (s : Store) (table key : String) : Action σ Unit :=
  s.onTable table fun name => Backend.unset name key

/-- The record at a key of a table, as it is stored. -/
def rawGet (s : Store) (table key : String) : Action σ (Option Bytes) :=
  s.onTable table fun name => Backend.get name key

/-- The content at a key of a table, read as a shape. -/
def get (s : Store) (table key : String) (shape : Cbor.Shape) :
    Action σ (Option shape.Carrier) := do
  match ← s.rawGet table key with
  | some record => Action.ofCodec (s.encoder.decode shape record)
  | none => return none

/-- Whether there is a record at a key of a table. -/
def contains (s : Store) (table key : String) : Action σ Bool := do
  return (← s.rawGet table key).isSome

/-- Closes the vault for all handles on it. -/
def close (_ : Store) : Action σ Unit :=
  Action.ofStorage Backend.close

/-- A handle as it is shown: the kind of its backend and the path to its place. -/
def shown (s : Store) (backend : String) : String :=
  "Store \x7b backend: " ++ Quoted.quote backend ++ ", namespace: [" ++
    String.intercalate ", " (s.position.segments.map Quoted.quote) ++ "] \x7d"

end Store

end TableVault
