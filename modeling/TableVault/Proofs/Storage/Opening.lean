import TableVault.Proofs.Storage.OneFile

namespace TableVault.Storage

/-!
# Opening files on a disk with others

What opening a file, by whatever path, does to the disk around it.

* `FileTree.Extends` and `FileTree.Grows` — everything that was there is still there, and what
  is new are directories; making directories only adds to a tree;
* `Disk.openFile_grown` and `Disk.openFile_eq` — opening makes directories at most, and then
  takes hold of a database that nobody holds, or of a new one, unless it fails;
* `FileAt.hold_any`, `FileAt.openFile_any` and `FileAt.through_any` — a database when this file
  or another is taken hold of or opened, and after a program through any handle.
-/

namespace FileTree

variable {t u v : FileTree} {place other : Place} {node : Node}

/-! ### Growing trees -/

/-- Everything that was there is still there. -/
def Extends (t u : FileTree) : Prop :=
  ∀ place node, t.node? place = some node → u.node? place = some node

/-- A tree is as it is. -/
theorem Extends.refl (t : FileTree) : Extends t t := fun _ _ h => h

/-- What is added later is added. -/
theorem Extends.trans (htu : Extends t u) (huv : Extends u v) : Extends t v :=
  fun place node h => huv place node (htu place node h)

/-- What is still there is of the same kind. -/
theorem Extends.keepsKinds (h : Extends t u) : KeepsKinds t u := by
  intro place isDirectory hkind
  obtain ⟨node, hnode, hdirectory⟩ := Option.map_eq_some_iff.mp hkind
  rw [kind, h place node hnode, Option.map_some, hdirectory]

/-- A node that is put where there was none is added. -/
theorem extends_put (hnone : t.node? place = none) (node : Node) : Extends t (t.put place node) := by
  intro other old hold
  have hplace : place ≠ [] := by
    rintro rfl
    cases hnone
  by_cases hother : other = []
  · subst hother
    exact hold
  · by_cases hkey : key place = key other
    · rw [t.node?_congr hplace hother hkey, hold] at hnone
      cases hnone
    · rw [t.node?_put_of_ne node hkey, hold]

/-- Everything that was there is still there, and what is new are directories. -/
structure Grows (t u : FileTree) : Prop where
  kept : Extends t u
  new : ∀ place node, u.node? place = some node → t.node? place = some node ∨ node = .directory

/-- A tree is as it is. -/
theorem Grows.refl (t : FileTree) : Grows t t :=
  ⟨.refl t, fun _ _ h => .inl h⟩

/-- What grows twice has grown. -/
theorem Grows.trans (htu : Grows t u) (huv : Grows u v) : Grows t v := by
  refine ⟨htu.kept.trans huv.kept, fun place node h => ?_⟩
  rcases huv.new place node h with hold | hnew
  · exact htu.new place node hold
  · exact .inr hnew

/-- A directory that is put where there was nothing lets the tree grow. -/
theorem grows_put (hnone : t.node? place = none) : Grows t (t.put place .directory) := by
  refine ⟨extends_put hnone .directory, fun other node h => ?_⟩
  have hplace : place ≠ [] := by
    rintro rfl
    cases hnone
  by_cases hother : other = []
  · subst hother
    exact .inl h
  · by_cases hkey : key place = key other
    · rw [← node?_congr _ hplace hother hkey, t.node?_put hplace] at h
      exact .inr (Option.some.inj h).symm
    · rw [t.node?_put_of_ne _ hkey] at h
      exact .inl h

/-- An action that, whether it succeeds or not, only adds directories to a tree. -/
def Adds {α : Type} (x : FileAction FileTree α) : Prop :=
  ∀ t, Grows t (outcome x t).2

/-- One action after another adds what they add. -/
theorem Adds.bind {α β : Type} {x : FileAction FileTree α} {f : α → FileAction FileTree β}
    (hx : Adds x) (hf : ∀ a, Adds (f a)) : Adds (x >>= f) := by
  intro t
  have hfirst := hx t
  unfold outcome at hfirst ⊢
  cases hrun : x t with
  | ok a u =>
    rw [hrun] at hfirst
    rw [bind_of_ok hrun]
    exact hfirst.trans (hf a u)
  | error fault u =>
    rw [hrun] at hfirst
    rw [bind_of_error hrun]
    exact hfirst

/-- Making sure that there is a directory at a place adds at most that. -/
theorem adds_ensure (place : Place) : Adds (ensure place) := by
  intro t
  unfold outcome ensure
  cases hnode : t.node? place with
  | none => exact grows_put hnode
  | some node => cases node <;> exact .refl t

/-- Making directories on a way adds to the tree. -/
theorem adds_ensureFrom (place : Place) (pieces : List String) : Adds (ensureFrom place pieces) := by
  induction pieces generalizing place with
  | nil => exact fun t => .refl t
  | cons piece rest ih =>
    intro t
    rw [ensureFrom]
    unfold outcome
    dsimp only
    cases t.enter place piece with
    | error fault => exact .refl t
    | ok next => exact ((adds_ensure next).bind fun _ => ih next) t

/-- Making the directories that lead to a path adds to the tree. -/
theorem adds_makeAbove (path : String) : Adds (makeAbove path) := by
  intro t
  have hways := adds_ensureFrom [] ((above path).filter (· ≠ "")) t
  unfold outcome at hways ⊢
  rw [makeAbove]
  cases checkPath (above path) with
  | error fault => exact .refl t
  | ok _ =>
    dsimp only
    exact hways

end FileTree

namespace Disk

variable {d d' : Disk} {h : Handle} {path : String} {place : Place} {node : Node} {ts : Tables}

/-- A node that is put somewhere replaces a file, if that is what was there, or leaves it alone. -/
theorem FileAt.put_any {other : Place} {new : Node} (hd : d.FileAt path place node)
    (hother : other ≠ []) (hkinds : FileTree.KeepsKinds d.files (d.put other new).files) :
    (d.files.node? other = some node ∧ (d.put other new).FileAt path place new) ∨
      (d.put other new).FileAt path place node := by
  have hplace := ne_top_of_filePlace hd.place_eq
  by_cases hkey : FileTree.key other = FileTree.key place
  · have hnode : (d.put other new).files.node? place = some new :=
      (FileTree.node?_congr _ hother hplace hkey).symm.trans (FileTree.node?_put _ hother new)
    exact .inl ⟨(FileTree.node?_congr _ hother hplace hkey).trans hd.node_eq,
      hd.of_keepsKinds hkinds hnode⟩
  · have hnode : (d.put other new).files.node? place = some node :=
      (FileTree.node?_put_of_ne _ new hkey).trans hd.node_eq
    exact .inr (hd.of_keepsKinds hkinds hnode)

/-! ### Opening -/

/-- A place where a database can be taken hold of: one that nobody holds, or a new one. -/
def Vacant (d : Disk) (place : Place) (ts : Tables) : Prop :=
  d.files.node? place = some (.database ts none) ∨ d.files.node? place = some (.foreign []) ∨
    d.files.node? place = none

/-- A file is taken hold of if nobody holds it, or else nothing is done. -/
theorem attach_eq (path : String) (d : Disk) :
    (∃ e, attach path d = .error e d) ∨ ∃ place ts, d.filePlace path = .ok place ∧
      d.Vacant place ts ∧ attach path d = .ok (d.hold path place ts).1 (d.hold path place ts).2 := by
  unfold attach
  cases hplace : d.filePlace path with
  | error fault => exact .inl ⟨_, rfl⟩
  | ok place =>
    dsimp only
    split
    · exact .inl ⟨_, rfl⟩
    · exact .inl ⟨_, rfl⟩
    · next ts hnode => exact .inr ⟨place, ts, rfl, .inl hnode, rfl⟩
    · next hheld hforeign hfree =>
      refine .inr ⟨place, ∅, rfl, .inr ?_, rfl⟩
      cases hnode : d.files.node? place with
      | none => exact .inr rfl
      | some node =>
        cases node with
        | directory =>
          -- A path to a directory leads to no file.
          have hdirectory := (filePlace_eq_ok hplace).2.2
          rw [FileTree.hasDirectory, hnode] at hdirectory
          cases hdirectory
        | foreign content =>
          cases content with
          | nil => exact .inl rfl
          | cons b rest => exact absurd hnode (hforeign b rest)
        | database ts holder =>
          cases holder with
          | none => exact absurd hnode (hfree ts)
          | some n => exact absurd hnode (hheld ts n)

/-- The tree of a disk has grown, and no handle has been given out. -/
structure Grown (d d₀ : Disk) : Prop where
  files : FileTree.Grows d.files d₀.files
  issued : d₀.issued = d.issued

/-- Making the directories above a path lets a disk grow, also if it fails. -/
theorem makeAbove_eq (path : String) (d : Disk) :
    ∃ d₀ : Disk, d.Grown d₀ ∧
      ((∃ fault, EStateM.adaptExcept StorageError.io (onFiles (FileTree.makeAbove path)) d =
          .error (.io fault) d₀) ∨
        EStateM.adaptExcept StorageError.io (onFiles (FileTree.makeAbove path)) d = .ok () d₀) := by
  have hgrows := FileTree.adds_makeAbove path d.files
  unfold outcome at hgrows
  unfold EStateM.adaptExcept onFiles
  cases hmake : FileTree.makeAbove path d.files with
  | ok u files =>
    rw [hmake] at hgrows
    exact ⟨{ d with files }, ⟨hgrows, rfl⟩, .inr rfl⟩
  | error fault files =>
    rw [hmake] at hgrows
    exact ⟨{ d with files }, ⟨hgrows, rfl⟩, .inl ⟨fault, rfl⟩⟩

/-- Making ready to open a file lets a disk grow, also if it fails. -/
theorem prepare_eq (options : OpenOptions) (path : String) (d : Disk) :
    ∃ d₀ : Disk, d.Grown d₀ ∧ ((∃ fault, prepare options path d = .error (.io fault) d₀) ∨
      prepare options path d = .ok () d₀) := by
  unfold prepare
  split
  · exact ⟨d, ⟨.refl _, rfl⟩, .inr rfl⟩
  · split
    · exact ⟨d, ⟨.refl _, rfl⟩, .inl ⟨_, rfl⟩⟩
    · exact makeAbove_eq path d

/-- Opening a file may make directories, and then takes hold of the file or fails without having
    done more. -/
theorem openFile_grown (options : OpenOptions) (path : String) (d : Disk) :
    ∃ d₀ : Disk, d.Grown d₀ ∧
      ((∃ fault, openFile options path d = .error (.io fault) d₀) ∨
        openFile options path d = attach path d₀) := by
  obtain ⟨d₀, hgrown, ⟨fault, herror⟩ | hok⟩ := prepare_eq options path d
  · exact ⟨d₀, hgrown, .inl ⟨fault, bind_of_error herror _⟩⟩
  · exact ⟨d₀, hgrown, .inr (bind_of_ok hok _)⟩

/-- Opening a file adds to what is on a disk, and then takes hold of the file or fails. -/
theorem openFile_eq (options : OpenOptions) (path : String) (d : Disk) :
    ∃ d₀ : Disk, FileTree.Extends d.files d₀.files ∧
      ((∃ e, openFile options path d = .error e d₀) ∨ ∃ place ts, d₀.filePlace path = .ok place ∧
        d₀.Vacant place ts ∧
        openFile options path d = .ok (d₀.hold path place ts).1 (d₀.hold path place ts).2) := by
  obtain ⟨d₀, hgrown, ⟨fault, herror⟩ | hattach⟩ := openFile_grown options path d
  · exact ⟨d₀, hgrown.files.kept, .inl ⟨_, herror⟩⟩
  · rw [hattach]
    exact ⟨d₀, hgrown.files.kept, attach_eq path d₀⟩

/-- Taking hold of a file changes no kinds of what is there. -/
theorem Vacant.keepsKinds (hvacant : d.Vacant place ts) (new : Node)
    (hnew : new.isDirectory = false) : FileTree.KeepsKinds d.files (d.put place new).files := by
  rcases hvacant with hold | hold | hnone
  · exact FileTree.keepsKinds_put hold rfl new hnew
  · exact FileTree.keepsKinds_put hold rfl new hnew
  · exact (FileTree.extends_put hnone new).keepsKinds

/-- A file that has been taken hold of is found at its path, and the new handle holds it. -/
theorem Vacant.hold (hvacant : d.Vacant place ts) (hplace : d.filePlace path = .ok place) :
    (d.hold path place ts).2.FileAt path place (.database ts (some d.issued)) :=
  fileAt_of_keepsKinds hplace (hvacant.keepsKinds (.database ts (some d.issued)) rfl)
    (FileTree.node?_put _ (ne_top_of_filePlace hplace) _) rfl

/-- A database keeps its tables when a file is taken hold of, be it this one or another. -/
theorem FileAt.hold_any {path' : String} {other : Place} {us : Tables} {holder : Option ℕ}
    (hd : d.FileAt path place (.database us holder)) (hvacant : d.Vacant other ts)
    (hother : d.filePlace path' = .ok other) :
    ∃ holder', (d.hold path' other ts).2.FileAt path place (.database us holder') := by
  have hne := ne_top_of_filePlace hother
  have hput : ∀ {node : Node}, (d.put other (.database ts (some d.issued))).FileAt path place node →
      (d.hold path' other ts).2.FileAt path place node := fun h => ⟨h.place_eq, h.node_eq⟩
  have hkinds := hvacant.keepsKinds (.database ts (some d.issued)) rfl
  rcases hd.put_any hne hkinds with ⟨hsame, hnew⟩ | hold
  · -- It is this one, so nobody has held it, and the tables are its own.
    unfold Vacant at hvacant
    rw [hsame] at hvacant
    obtain rfl : us = ts := by
      rcases hvacant with h | h | h
      · cases h
        rfl
      · cases h
      · cases h
    exact ⟨_, hput hnew⟩
  · exact ⟨holder, hput hold⟩

/-- A database keeps its tables when a file is opened, be it this one or another, or when the
    attempt fails. -/
theorem FileAt.openFile_any {us : Tables} {holder : Option ℕ}
    (hd : d.FileAt path place (.database us holder)) (options : OpenOptions) (path' : String) :
    ∃ holder', (outcome (openFile options path') d).2.FileAt path place (.database us holder') := by
  obtain ⟨d₀, hextends, hopen⟩ := openFile_eq options path' d
  have hd₀ : d₀.FileAt path place (.database us holder) :=
    hd.of_keepsKinds hextends.keepsKinds (hextends place _ hd.node_eq)
  rcases hopen with ⟨e, herror⟩ | ⟨other, ts, hother, hvacant, hok⟩
  · rw [outcome, herror]
    exact ⟨holder, hd₀⟩
  · rw [outcome, hok]
    exact hd₀.hold_any hvacant hother

/-- A program through any handle leaves a database as it is, unless the handle holds it and the
    program has changed its tables. -/
theorem FileAt.through_any {ε α : Type} {us : Tables} {holder : Option ℕ}
    (hd : d.FileAt path place (.database us holder)) (h : Handle) (x : EStateM ε Durable α) :
    ∃ vs holder', (outcome (Disk.through h x) d).2.FileAt path place (.database vs holder') ∧
      (vs = us ∨ ∃ s, view s = some us ∧ vs = (outcome x s).2.tables) := by
  rw [outcome_through]
  generalize hafter : (outcome x (d.connection h)).2 = after
  cases hopen : (d.connection h).isOpen with
  | false => exact ⟨us, holder, by rwa [settle_of_closed hopen], .inl rfl⟩
  | true =>
    have hview : view (d.connection h) = some (d.connection h).tables := if_pos hopen
    obtain ⟨hne, hnode⟩ := holdsAt_of_view hview
    have hkinds := FileTree.keepsKinds_put hnode rfl
      (.database after.tables (if after.isOpen then some h.number else none)) rfl
    rw [Disk.settle, if_pos hopen]
    rcases hd.put_any hne hkinds with ⟨hsame, hnew⟩ | hold
    · rw [hnode] at hsame
      obtain rfl : (d.connection h).tables = us := by cases hsame; rfl
      exact ⟨_, _, hnew, .inr ⟨_, hview, by rw [hafter]⟩⟩
    · exact ⟨us, holder, hold, .inl rfl⟩

end Disk

end TableVault.Storage
