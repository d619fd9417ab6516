import TableVault.Database
import TableVault.Storage.Memory
import TableVault.View

namespace TableVault

/-!
# Sessions

A session keeps handles under names: stores, views of tables, and one raw backend. A
handle on a database file is given up as soon as no name refers to it any more.

* `Link` — where the backend of a handle is;
* `Session` — the backends and the names;
* `Session.on` — runs an action on the backend of a link, whatever its kind;
* `Session.setStore`, `Session.setView` and `Session.setRaw` — give a name to a handle;
* `Session.openStore`, `Session.adoptRaw` and `Session.openRaw` — the ways to get a
  handle on a backend. One that fails gives no name.
-/

open Storage

/-- Where the backend of a handle is: in memory, by its number, or in a file. -/
inductive Link where
  | memory (number : Nat)
  | file (handle : Handle)
  deriving DecidableEq, Repr

/-- The handle on a file that a link goes through. -/
def Link.handle? : Link → Option Handle
  | .memory _ => none
  | .file h => some h

/-- Backends in memory and on disk, and the names of the handles on them. -/
structure Session where
  disk : Disk
  memories : Array Memory
  stores : Std.ExtTreeMap String (Link × Store)
  views : Std.ExtTreeMap String (Link × View)
  raw : Option Link

namespace Session

/-- A session over one empty backend in memory, which is its raw backend. -/
def inMemory : Session := ⟨.empty, #[.empty], ∅, ∅, some (.memory 0)⟩

/-- A session over a file system, without a raw backend. -/
def onDisk (disk : Disk) : Session := ⟨disk, #[], ∅, ∅, none⟩

/-! ### Backends -/

/-- Runs an action on the backend of a link. -/
def on {ε α : Type} (link : Link) (x : {σ : Type} → [Backend σ] → EStateM ε σ α) :
    EStateM ε Session α := fun s =>
  match link with
  | .memory n =>
    match x (s.memories.getD n ⟨none⟩) with
    | .ok a m => .ok a { s with memories := s.memories.setIfInBounds n m }
    | .error e m => .error e { s with memories := s.memories.setIfInBounds n m }
  | .file h =>
    match Disk.through h x s.disk with
    | .ok a disk => .ok a { s with disk }
    | .error e disk => .error e { s with disk }

/-- Runs an action on the file system. -/
def onFiles {ε α : Type} (x : EStateM ε Disk α) : EStateM ε Session α := fun s =>
  match x s.disk with
  | .ok a disk => .ok a { s with disk }
  | .error e disk => .error e { s with disk }

/-- The name of the kind of backend of a link. -/
def backendName : Link → String
  | .memory _ => Backend.name Memory
  | .file _ => Backend.name Durable

/-- A fresh backend in memory. -/
def addMemory (s : Session) : Link × Session :=
  (.memory s.memories.size, { s with memories := s.memories.push .empty })

/-! ### Names -/

/-- The handles on files that some name refers to. -/
def handles (s : Session) : List Handle :=
  (s.stores.values.map (·.1) ++ s.views.values.map (·.1) ++ s.raw.toList).filterMap Link.handle?

/-- The session `after` a change of names, with the handles given up that no name
    refers to any more. -/
def giveUp (before after : Session) : Session :=
  let kept := after.handles
  let lost := before.handles.filter fun h => !kept.contains h
  { after with disk := lost.foldl Disk.release after.disk }

/-- Gives a name to a store. -/
def setStore (s : Session) (name : String) (link : Link) (store : Store) : Session :=
  giveUp s { s with stores := s.stores.insert name (link, store) }

/-- Gives a name to a view. -/
def setView (s : Session) (name : String) (link : Link) (view : View) : Session :=
  giveUp s { s with views := s.views.insert name (link, view) }

/-- Makes a link that of the raw backend, or leaves the session without one. -/
def setRaw (s : Session) (link : Option Link) : Session :=
  giveUp s { s with raw := link }

/-! ### Opening -/

/-- Opens a database file, unlocks it, and names the store. -/
def openStore (name path : String) (config : Config) (fresh : Fresh) (padlock : Bytes) :
    Action Session Store := do
  let (h, store) ← onFiles (Database.openStore config path fresh padlock)
  modify fun s => s.setStore name (.file h) store
  return store

/-- Unlocks a backend and names the store. -/
def unlockStore (name : String) (link : Link) (fresh : Fresh) (padlock : Bytes) :
    Action Session Store := do
  let store ← on link (Store.withBackend fresh padlock)
  modify fun s => s.setStore name link store
  return store

/-- Unlocks the raw backend and names the store. The session has no raw backend then,
    whether unlocking succeeded or not. -/
def adoptRaw (name : String) (link : Link) (fresh : Fresh) (padlock : Bytes) :
    Action Session Store := fun s =>
  match unlockStore name link fresh padlock s with
  | .ok store s => .ok store (s.setRaw none)
  | .error e s => .error e (s.setRaw none)

/-- Opens a database file as the raw backend. -/
def openRaw (path : String) (options : OpenOptions) : StorageAction Session Unit := do
  let h ← onFiles (Disk.openFile options path)
  modify fun s => s.setRaw (some (.file h))

/-- Makes a store over a fresh backend in memory, under a fresh master key. -/
def addMemoryStore (s : Session) (name : String) (fresh : Fresh) : Store × Session :=
  let store := Store.ofMaster fresh.master
  let (link, s) := s.addMemory
  (store, s.setStore name link store)

/-- Makes a fresh backend in memory the raw backend. -/
def renewMemory (s : Session) : Session :=
  let (link, s) := s.addMemory
  s.setRaw (some link)

end Session

end TableVault
