import TableVault.Store

namespace TableVault

/-!
# Views of tables

* `View` — a store and the name of one of its tables, with the operations of the store
  on that table.
-/

open Storage

/-- One table of a store. -/
structure View where
  store : Store
  name : String

/-- The view of a table, whose name must be valid. -/
def Store.table (s : Store) (name : String) : Except VaultError View := do
  let _ ← s.position.qualify name
  return ⟨s, name⟩

namespace View

variable {σ : Type} [Backend σ]

/-- The content at a key, read as a shape. -/
def get (v : View) (key : String) (shape : Cbor.Shape) : Action σ (Option shape.Carrier) :=
  v.store.get v.name key shape

/-- Stores plain content at a key. -/
def set (v : View) (key : String) (content : Content) : Action σ Unit :=
  v.store.set v.name key content

/-- Stores encrypted content at a key. -/
def cryptSet (v : View) (key : String) (content : Content) : Action σ Unit :=
  v.store.cryptSet v.name key content

/-- The keys of the table. -/
def keys (v : View) : Action σ (List String) :=
  v.store.keys v.name

/-- The number of keys of the table. -/
def countKeys (v : View) : Action σ Nat :=
  v.store.countKeys v.name

/-- Removes the record at a key. -/
def unset (v : View) (key : String) : Action σ Unit :=
  v.store.unset v.name key

/-- Removes the table, and the namespace of the same name. -/
def drop (v : View) : Action σ Unit :=
  v.store.drop v.name

/-- Whether there is a record at a key. -/
def contains (v : View) (key : String) : Action σ Bool :=
  v.store.contains v.name key

/-- A view as it is shown: its store and its name. -/
def shown (v : View) (backend : String) : String :=
  "Table \x7b store: " ++ v.store.shown backend ++ ", name: " ++ Quoted.quote v.name ++ " \x7d"

end View

end TableVault
