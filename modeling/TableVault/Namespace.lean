import TableVault.Error
import TableVault.Storage.Tables
import TableVault.Text.Pieces

namespace TableVault

/-!
# Namespaces

A namespace is a place in a tree; its tables are kept under names that spell the path
to it.

* `validateName` — the names that tables and namespaces may have;
* `Namespace` — a place in the tree, by the stem that its table names start with;
* `Namespace.sub` / `Namespace.shared` — the places one segment below a place, and
  those of the shared buckets, which are the same from everywhere;
* `Namespace.qualify` — the backend name of a table;
* `Namespace.childTables` / `Namespace.subNamespaces` — a list of backend names,
  divided into the tables of a place and what lies in namespaces below it.
-/

/-- The segment that all shared buckets lie beneath. -/
def sharedRoot : String := "__shared__"

/-- A name is not empty and does not contain the separator. -/
def validateName (name : String) : Except VaultError Unit :=
  if name = "" then .error (.invalidName name .empty)
  else if name.toList.contains Storage.separator then
    .error (.invalidName name .containsSeparator)
  else .ok ()

/-- A segment as it stands in a stem: followed by the separator. -/
def terminated (segment : String) : String :=
  segment ++ String.singleton Storage.separator

/-- A place in the tree of namespaces. Its stem is the path to it, each segment
    followed by the separator. -/
structure Namespace where
  stem : String
  deriving DecidableEq, Repr

namespace Namespace

/-- The top of the tree. -/
def root : Namespace := ⟨""⟩

instance : Inhabited Namespace := ⟨root⟩

/-- The place of a shared bucket. -/
def shared (name : String) : Except VaultError Namespace := do
  validateName name
  return ⟨terminated sharedRoot ++ terminated name⟩

/-- The place one segment below a place. -/
def sub (ns : Namespace) (name : String) : Except VaultError Namespace := do
  validateName name
  return ⟨ns.stem ++ terminated name⟩

/-- Whether a place is the top of the tree. -/
def isRoot (ns : Namespace) : Bool :=
  ns.stem == ""

/-- The segments of the path to a place. -/
def segments (ns : Namespace) : List String :=
  ((pieces Storage.separator ns.stem.toList).filter (· ≠ [])).map String.ofList

/-- The backend name of a table of a place. -/
def qualify (ns : Namespace) (table : String) : Except VaultError String := do
  validateName table
  return ns.stem ++ table

/-- What a backend name has after the stem of a place, if that is not nothing. -/
def relative? (ns : Namespace) (name : String) : Option String :=
  match ns.stem.toList.isPrefixOf? name.toList with
  | some (c :: rest) => some (String.ofList (c :: rest))
  | _ => none

/-- Whether a name reaches into a namespace below. -/
def isNested (rest : String) : Bool :=
  rest.toList.contains Storage.separator

/-- The first segment of a name. -/
def firstSegment (rest : String) : String :=
  String.ofList (rest.toList.takeWhile (· ≠ Storage.separator))

/-- The tables of a place, among backend names. -/
def childTables (ns : Namespace) (names : List String) : List String :=
  (names.filterMap ns.relative?).filter fun rest => !isNested rest

/-- What lies in namespaces below a place, among backend names: the whole names from
    there on, or the first segment of each, once. -/
def subNamespaces (ns : Namespace) (limitDepth : Bool) (names : List String) : List String :=
  let nested := (names.filterMap ns.relative?).filter isNested
  if limitDepth then (nested.map firstSegment).eraseDups else nested

end Namespace

end TableVault
