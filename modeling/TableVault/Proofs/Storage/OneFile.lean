import TableVault.Proofs.Storage.Handles
import TableVault.Proofs.Storage.Mortal

namespace TableVault.Storage

/-!
# One database file

What happens to a file when it is opened, used through a handle, and given up.

* `FileTree.KeepsKinds` — files and directories are where they were, and then paths lead
  where they led (`FileTree.resolve_of_keepsKinds`);
* `Disk.FileAt` — a path leads to a file of some content, and does so as long as kinds are
  kept (`FileAt.of_keepsKinds`);
* `FileAt.openFile_free` and `FileAt.openFile_held` — opening a file that nobody holds
  holds it, and opening one that is held does nothing;
* `FileAt.through`, `FileAt.release` and `FileAt.dieDuring` — the file after a program
  through the handle that holds it, after that handle has been given up, and after the
  process has died meanwhile.
-/

namespace FileTree

variable {t u : FileTree} {place : Place}

/-- Whether what is at a place is a directory, if there is anything. -/
def kind (t : FileTree) (place : Place) : Option Bool :=
  (t.node? place).map Node.isDirectory

/-- Only the kinds of nodes decide where a piece leads. -/
theorem enter_eq (t : FileTree) (place : Place) (piece : String) :
    t.enter place piece = match t.kind place with
      | none => .error (.system .noSuchFile)
      | some isDirectory =>
        if !isDirectory then .error (.system .notDirectory)
        else if piece = "." then .ok place
        else if piece = ".." then .ok place.dropLast
        else if nameLimit < piece.utf8ByteSize then .error (.system .nameTooLong)
        else .ok (place ++ [piece]) := by
  unfold enter kind
  cases t.node? place <;> rfl

/-- Files and directories are where they were. -/
def KeepsKinds (t u : FileTree) : Prop :=
  ∀ place isDirectory, t.kind place = some isDirectory → u.kind place = some isDirectory

/-- Pieces lead where they led as long as kinds are kept. -/
theorem walkFrom_of_keepsKinds (h : KeepsKinds t u) {final : Place} (pieces : List String)
    (hwalk : t.walkFrom place pieces = .ok final) : u.walkFrom place pieces = .ok final := by
  induction pieces generalizing place with
  | nil => exact hwalk
  | cons piece rest ih =>
    rw [walkFrom] at hwalk ⊢
    cases hkind : t.kind place with
    | none =>
      rw [enter_eq, hkind] at hwalk
      cases hwalk
    | some isDirectory =>
      -- There is something at the place, so the step is the same.
      have henter : u.enter place piece = t.enter place piece := by
        rw [enter_eq, enter_eq, hkind, h place isDirectory hkind]
      rw [henter]
      obtain ⟨next, hnext, hwalk⟩ := ok_of_bind hwalk
      rw [hnext]
      exact ih hwalk

/-- Paths lead where they led as long as kinds are kept. -/
theorem resolve_of_keepsKinds (h : KeepsKinds t u) {path : String}
    (hresolve : t.resolve path = .ok place) : u.resolve path = .ok place := by
  unfold resolve walk at hresolve ⊢
  obtain ⟨_, hcheck, hresolve⟩ := ok_of_bind hresolve
  rw [hcheck]
  exact walkFrom_of_keepsKinds h _ hresolve

/-- A file that is replaced by another file keeps all kinds. -/
theorem keepsKinds_put {old : Node} (hold : t.node? place = some old)
    (hfile : old.isDirectory = false) (new : Node) (hnew : new.isDirectory = false) :
    KeepsKinds t (t.put place new) := by
  intro other isDirectory hkind
  have hplace : place ≠ [] := by
    rintro rfl
    obtain rfl : Node.directory = old := Option.some.inj hold
    cases hfile
  by_cases hother : other = []
  · -- The top is a directory in every tree.
    subst hother
    exact hkind
  · by_cases hkey : key place = key other
    · rw [kind, ← node?_congr _ hplace hother hkey, hold, Option.map_some, hfile] at hkind
      rw [kind, ← node?_congr _ hplace hother hkey, node?_put t hplace new, Option.map_some, hnew]
      exact hkind
    · rwa [kind, node?_put_of_ne t new hkey]

end FileTree

namespace Disk

variable {d d' : Disk} {h : Handle} {path : String} {place : Place} {node : Node} {ts : Tables}

/-- A path leads to a file of some content. -/
structure FileAt (d : Disk) (path : String) (place : Place) (node : Node) : Prop where
  place_eq : d.filePlace path = .ok place
  node_eq : d.files.node? place = some node

/-- The disk after a process has died while it ran a program through a handle: after so
    many writes, and without the handle. -/
def dieDuring {ε α : Type} (n : Nat) (h : Handle) (x : EStateM ε (Mortal Durable) α) (d : Disk) :
    Disk :=
  (d.settle h (d.connection h) (cutShort n x (d.connection h))).release h

/-- A path still leads to a file as long as kinds are kept. -/
theorem fileAt_of_keepsKinds (hplace : d.filePlace path = .ok place)
    (hkinds : FileTree.KeepsKinds d.files d'.files) (hnode : d'.files.node? place = some node)
    (hfile : node.isDirectory = false) : d'.FileAt path place node := by
  refine ⟨?_, hnode⟩
  obtain ⟨hresolve, hasks, -⟩ := filePlace_eq_ok hplace
  unfold filePlace
  rw [FileTree.resolve_of_keepsKinds hkinds hresolve]
  simp [bind, Except.bind, pure, Except.pure, hasks, FileTree.hasDirectory, hnode, hfile]

/-- Nothing has to be made ready for what is there. -/
theorem prepare_of_exists (hexists : d.fileExists path = true) (options : OpenOptions) :
    prepare options path d = .ok () d := by
  rw [prepare, if_pos hexists]

/-- An attempt to open what is there takes hold of it. -/
theorem openFile_of_exists (hexists : d.fileExists path = true) (options : OpenOptions) :
    openFile options path d = attach path d := by
  rw [openFile, bind_of_ok (prepare_of_exists hexists options)]

namespace FileAt

/-- A file is no directory. -/
theorem isFile (hd : d.FileAt path place node) : node.isDirectory = false := by
  have hfile := (filePlace_eq_ok hd.place_eq).2.2
  rw [FileTree.hasDirectory, hd.node_eq] at hfile
  exact hfile

/-- There is something at the path to a file. -/
theorem fileExists (hd : d.FileAt path place node) : d.fileExists path = true := by
  obtain ⟨hresolve, hasks, -⟩ := filePlace_eq_ok hd.place_eq
  rw [Disk.fileExists, find?, FileTree.find?, hresolve]
  simp [hd.node_eq, hasks]

/-- A file is found at its path as long as kinds are kept. -/
theorem of_keepsKinds {other : Node} (hd : d.FileAt path place node)
    (hkinds : FileTree.KeepsKinds d.files d'.files) (hother : d'.files.node? place = some other) :
    d'.FileAt path place other := by
  refine fileAt_of_keepsKinds hd.place_eq hkinds hother ?_
  have hkind : d.files.kind place = some false := by
    rw [FileTree.kind, hd.node_eq, Option.map_some, hd.isFile]
  have hkept := hkinds place false hkind
  rw [FileTree.kind, hother] at hkept
  exact Option.some.inj hkept

/-- A file that has been replaced is found at its path. -/
theorem put {other : Node} (hd : d.FileAt path place node) (hother : other.isDirectory = false) :
    (d.put place other).FileAt path place other :=
  hd.of_keepsKinds (FileTree.keepsKinds_put hd.node_eq hd.isFile other hother)
    (FileTree.node?_put _ (ne_top_of_filePlace hd.place_eq) other)

/-! ### Opening -/

/-- Opening a database that nobody holds holds it. -/
theorem openFile_free (hd : d.FileAt path place (.database ts none)) (options : OpenOptions) :
    openFile options path d = .ok (d.hold path place ts).1 (d.hold path place ts).2 := by
  rw [openFile_of_exists hd.fileExists, attach, hd.place_eq]
  simp only [hd.node_eq]

/-- Opening an empty file makes it an empty database and holds it. -/
theorem openFile_empty (hd : d.FileAt path place (.foreign [])) (options : OpenOptions) :
    openFile options path d = .ok (d.hold path place ∅).1 (d.hold path place ∅).2 := by
  rw [openFile_of_exists hd.fileExists, attach, hd.place_eq]
  simp only [hd.node_eq]

/-- Opening a database that is held does nothing. -/
theorem openFile_held {n : Nat} (hd : d.FileAt path place (.database ts (some n)))
    (options : OpenOptions) : openFile options path d = .error (.locked path) d := by
  rw [openFile_of_exists hd.fileExists, attach, hd.place_eq]
  simp only [hd.node_eq]

/-- A database that has been opened is held by the new handle. -/
theorem hold (hd : d.FileAt path place node) (tables : Tables) :
    (d.hold path place tables).2.FileAt path place (.database tables (some d.issued)) := by
  have hput : (d.put place (.database tables (some d.issued))).FileAt path place _ := hd.put rfl
  exact ⟨hput.place_eq, hput.node_eq⟩

/-! ### Through the handle -/

/-- The handle that holds a database sees it. -/
theorem connection_eq (hd : d.FileAt path h.place (.database ts (some h.number))) :
    d.connection h = ⟨h.path, ts, true⟩ :=
  connection_of_holdsAt ⟨ne_top_of_filePlace hd.place_eq, hd.node_eq⟩

/-- The handle that holds a database sees its tables. -/
theorem view_connection (hd : d.FileAt path h.place (.database ts (some h.number))) :
    view (d.connection h) = some ts := by
  rw [hd.connection_eq]
  rfl

/-- A handle sees nothing of a database that nobody holds. -/
theorem connection_closed (hd : d.FileAt path h.place (.database ts none)) :
    d.connection h = ⟨h.path, ∅, false⟩ := by
  rw [connection, hd.node_eq]

/-- The file after a database has been settled. -/
theorem settle (hd : d.FileAt path h.place (.database ts (some h.number))) (after : Durable) :
    (d.settle h (d.connection h) after).FileAt path h.place
      (.database after.tables (if after.isOpen then some h.number else none)) := by
  rw [Disk.settle, hd.connection_eq, if_pos rfl]
  exact hd.put rfl

/-- The file after a program through the handle that holds it. -/
theorem through {ε α : Type} (hd : d.FileAt path h.place (.database ts (some h.number)))
    (x : EStateM ε Durable α) {after : Durable} (hafter : (outcome x ⟨h.path, ts, true⟩).2 = after) :
    (outcome (Disk.through h x) d).2.FileAt path h.place
      (.database after.tables (if after.isOpen then some h.number else none)) := by
  rw [outcome_through, ← hafter, ← hd.connection_eq]
  exact hd.settle _

/-- The file after the handle that held it has been given up. -/
theorem release (hd : d.FileAt path h.place (.database ts (some h.number))) :
    (d.release h).FileAt path h.place (.database ts none) := by
  -- Giving up is closing, whatever closing answers.
  have hclose := hd.through (Backend.close : StorageAction Durable Unit) rfl
  unfold outcome at hclose
  unfold Disk.release
  split at hclose
  · next hx => rw [hx]; exact hclose
  · next hx => rw [hx]; exact hclose

/-- A program through a handle does nothing to a file that nobody holds. -/
theorem through_closed {ε α : Type} (hd : d.FileAt path h.place (.database ts none))
    (x : EStateM ε Durable α) : (outcome (Disk.through h x) d).2 = d := by
  have hclosed : (d.connection h).isOpen = false := by
    rw [hd.connection_closed]
  rw [outcome_through]
  exact settle_of_closed hclosed

/-- The file after a process has died while it ran a program: it has the tables of the
    end of the program, or tables of its cut, and nobody holds it. -/
theorem dieDuring {ε α : Type} {x : EStateM ε (Mortal Durable) α} {us : Tables} {r : Except ε α}
    {cut : Set Tables} (hd : d.FileAt path h.place (.database ts (some h.number)))
    (hx : Runs x ts r us cut) (n : Nat) :
    ∃ vs, (d.dieDuring n h x).FileAt path h.place (.database vs none) ∧ (vs = us ∨ vs ∈ cut) := by
  have hview : view (⟨h.path, ts, true⟩ : Durable) = some ts := rfl
  obtain ⟨vs, hvs, hplace⟩ := hx.cutShort_view n hview
  obtain ⟨hopen, htables⟩ := Durable.view_eq_some hvs
  refine ⟨vs, ?_, hplace⟩
  have hsettle := hd.settle (cutShort n x (d.connection h))
  rw [hd.connection_eq, hopen, htables, if_pos rfl, ← hd.connection_eq] at hsettle
  exact hsettle.release

end FileAt

end Disk

end TableVault.Storage
