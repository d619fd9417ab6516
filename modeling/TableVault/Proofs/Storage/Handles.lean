import TableVault.Proofs.Storage.Lawful
import TableVault.Proofs.Trace
import TableVault.Storage.Disk

namespace TableVault.Storage

/-!
# Handles on database files

A program that runs through a handle changes the database that the handle holds, and
nothing else on the disk.

* `Disk.outcome_through` — a program through a handle answers what it answers on the
  database behind it, and the database is settled afterwards;
* `Disk.view_connection_settle` — what the handle sees then;
* `Disk.HoldsAt` — a handle holds a database; opening a file gives one that does, and a
  file that was not there is an empty database.
-/

namespace FileTree

/-- The node that has been put at a place is found there. -/
theorem node?_put (t : FileTree) {place : Place} (hplace : place ≠ []) (node : Node) :
    (t.put place node).node? place = some node := by
  rw [node?, if_neg hplace]
  exact Std.ExtTreeMap.getElem?_insert_self

/-- Places other than the top with the same key are the same. -/
theorem node?_congr (t : FileTree) {place other : Place} (hplace : place ≠ []) (hother : other ≠ [])
    (hkey : key place = key other) : t.node? place = t.node? other := by
  rw [node?, if_neg hplace, node?, if_neg hother, hkey]

/-- What is put at a place is found at no other key. -/
theorem node?_put_of_ne (t : FileTree) (node : Node) {place other : Place}
    (hkey : key place ≠ key other) :
    (t.put place node).node? other = t.node? other := by
  have hcompare : ¬ compare (key place) (key other) = .eq := by simpa using hkey
  unfold node? put
  rw [Std.ExtTreeMap.getElem?_insert, if_neg hcompare]

/-- Of two nodes that are put at a place the second one stays. -/
@[simp] theorem put_put (t : FileTree) (place : Place) (node other : Node) :
    (t.put place node).put place other = t.put place other := by
  refine congrArg FileTree.mk (Std.ExtTreeMap.ext_getElem? fun k => ?_)
  simp only [put, Std.ExtTreeMap.getElem?_insert]
  split <;> rfl

/-- Putting the node that is there changes nothing. -/
theorem put_of_node? {t : FileTree} {place : Place} {node : Node} (hplace : place ≠ [])
    (h : t.node? place = some node) : t.put place node = t := by
  rw [node?, if_neg hplace] at h
  refine congrArg FileTree.mk (Std.ExtTreeMap.ext_getElem? fun k => ?_)
  rw [Std.ExtTreeMap.getElem?_insert]
  split
  · next hkey => rw [← Std.LawfulEqCmp.eq_of_compare hkey, h]
  · rfl

end FileTree

namespace Disk

/-- A handle holds a database with some tables. -/
def HoldsAt (d : Disk) (h : Handle) (tables : Tables) : Prop :=
  h.place ≠ [] ∧ d.files.node? h.place = some (.database tables (some h.number))

variable {d : Disk} {h : Handle} {ts : Tables} {ε α : Type}

/-- The database behind a handle that holds it is open. -/
theorem connection_of_holdsAt (hd : d.HoldsAt h ts) : d.connection h = ⟨h.path, ts, true⟩ := by
  rw [connection, hd.2]
  exact if_pos rfl

/-- A handle that sees an open database holds it. -/
theorem holdsAt_of_view (hd : view (d.connection h) = some ts) : d.HoldsAt h ts := by
  obtain ⟨hopen, htables⟩ := Durable.view_eq_some hd
  unfold connection at hopen htables
  constructor
  · intro hplace
    rw [hplace, show d.files.node? [] = some .directory from if_pos rfl] at hopen
    cases hopen
  · -- A connection is open only on a database whose holder is the handle.
    split at hopen
    · next tables n hnode =>
      rw [hnode] at htables ⊢
      by_cases hn : n = h.number
      · have hts : (if n = h.number then ⟨h.path, tables, true⟩ else ⟨h.path, ∅, false⟩ :
            Durable).tables = ts := htables
        rw [if_pos hn] at hts
        rw [hn, show tables = ts from hts]
      · rw [if_neg hn] at hopen
        cases hopen
    · cases hopen

/-- The database behind a handle is settled after a program that has run through it. -/
theorem through_of_answering {x : EStateM ε Durable α} {r : Except ε α} {after : Durable}
    (hrun : x (d.connection h) = answering r after) :
    through h x d = answering r (d.settle h (d.connection h) after) := by
  unfold through
  cases r <;> simp only [hrun, answering]

/-- A program through a handle answers what it answers on the database behind it. -/
theorem outcome_through (x : EStateM ε Durable α) (d : Disk) (h : Handle) :
    outcome (through h x) d =
      ((outcome x (d.connection h)).1, d.settle h (d.connection h) (outcome x (d.connection h)).2) := by
  unfold outcome through
  cases hx : x (d.connection h) <;> simp only [hx]

/-- After a database has been settled, the handle sees it as the program left it. -/
theorem view_connection_settle {before after : Durable} (hd : view (d.connection h) = some ts)
    (hbefore : before.isOpen = true) :
    view ((d.settle h before after).connection h) = view after := by
  have hplace := (holdsAt_of_view hd).1
  have hnode := FileTree.node?_put d.files hplace
    (.database after.tables (if after.isOpen then some h.number else none))
  rw [settle, if_pos hbefore]
  cases hopen : after.isOpen with
  | true =>
    rw [hopen] at hnode
    rw [connection_of_holdsAt ⟨hplace, hnode⟩]
    show some after.tables = if after.isOpen then some after.tables else none
    rw [hopen, if_pos rfl]
  | false =>
    rw [hopen] at hnode
    -- The file has been let go of, and a handle sees nothing of a file it does not hold.
    have hclosed : view ((d.put h.place (.database after.tables none)).connection h) = none := by
      rw [connection, show (d.put h.place (.database after.tables none)).files.node? h.place = _
        from hnode]
      rfl
    refine hclosed.trans ?_
    show none = if after.isOpen then some after.tables else none
    rw [hopen]
    rfl

/-- A closed handle stays closed. -/
theorem settle_of_closed {before after : Durable} (hbefore : before.isOpen = false) :
    d.settle h before after = d := by
  rw [settle, if_neg (by simp [hbefore])]

/-! ### Opening -/

/-- The place of a file is where its path leads. A path to a directory leads to no file. -/
theorem filePlace_eq_ok {path : String} {place : Place} (h : d.filePlace path = .ok place) :
    d.files.resolve path = .ok place ∧ FileTree.asksDirectory path = false ∧
      d.files.hasDirectory place = false := by
  obtain ⟨found, hfound, h⟩ := ok_of_bind h
  by_cases htest : FileTree.asksDirectory path || d.files.hasDirectory found
  · simp [bind, Except.bind, htest, throw, throwThe, MonadExceptOf.throw] at h
  · obtain rfl : found = place := by
      simpa [bind, Except.bind, htest, pure, Except.pure] using h
    rw [Bool.or_eq_true, not_or, Bool.not_eq_true, Bool.not_eq_true] at htest
    exact ⟨hfound, htest⟩

/-- A file is not the top of the tree. -/
theorem ne_top_of_filePlace {path : String} {place : Place} (h : d.filePlace path = .ok place) :
    place ≠ [] := by
  rintro rfl
  have hdirectory := (filePlace_eq_ok h).2.2
  rw [FileTree.hasDirectory, show d.files.node? [] = some .directory from if_pos rfl] at hdirectory
  cases hdirectory

/-- A new handle holds its database. -/
theorem hold_holdsAt (d : Disk) (path : String) {place : Place} (hplace : place ≠ [])
    (tables : Tables) :
    (d.hold path place tables).2.HoldsAt (d.hold path place tables).1 tables :=
  ⟨hplace, FileTree.node?_put _ hplace _⟩

/-- A file that was not there is an empty database once it has been opened. -/
theorem attach_new {path : String} {d' : Disk} (hnew : d.fileExists path = false)
    (hopen : attach path d = .ok h d') : d'.HoldsAt h ∅ := by
  unfold attach at hopen
  cases hp : d.filePlace path with
  | error fault =>
    rw [hp] at hopen
    cases hopen
  | ok place =>
    obtain ⟨hresolve, hasks, -⟩ := filePlace_eq_ok hp
    -- The path leads somewhere, so that there is nothing at it means that the place is free.
    have hnode : d.files.node? place = none := by
      rw [fileExists, find?, FileTree.find?, hresolve] at hnew
      simpa [hasks] using hnew
    rw [hp] at hopen
    simp only [hnode] at hopen
    cases hopen
    exact hold_holdsAt d path (ne_top_of_filePlace hp) ∅

end Disk

end TableVault.Storage
