import TableVault.Proofs.Storage.Opening

namespace TableVault.Storage

/-!
# Who holds the files of a disk

Several handles have been given out on a disk, to callers who may have passed them on.

* `FileTree.key_inj` — places that paths lead to are told apart by the names on the way;
* `Disk.Tended` — the invariant: every database that is held is held by one of the handles,
  no two of which have the same number;
* `Tended.openFile`, `Tended.through` and `Tended.forget` — it is kept when a file is opened,
  when a handle is used, and when a handle that is closed is not counted any more;
* `Tended.unique` and `Tended.held_of_locked` — at most one handle holds a file, and a caller
  is locked out only by one that does.
-/

namespace FileTree

variable {t : FileTree}

/-! ### Places that paths lead to -/

/-- No name on the way contains a slash. -/
def Spelled (place : Place) : Prop := ∀ name ∈ place, '/' ∉ name.toList

/-- A step leads to names without slashes. -/
theorem spelled_enter {place next : Place} {piece : String} (hplace : Spelled place)
    (hpiece : '/' ∉ piece.toList) (h : t.enter place piece = .ok next) : Spelled next := by
  unfold enter at h
  cases hnode : t.node? place with
  | none =>
    rw [hnode] at h
    cases h
  | some node =>
    rw [hnode] at h
    dsimp only at h
    split at h
    · cases h
    · split at h
      · obtain rfl := Except.ok.inj h
        exact hplace
      · split at h
        · obtain rfl := Except.ok.inj h
          exact fun name hname => hplace name (List.mem_of_mem_dropLast hname)
        · split at h
          · cases h
          · obtain rfl := Except.ok.inj h
            intro name hname
            rcases List.mem_append.mp hname with hold | hnew
            · exact hplace name hold
            · obtain rfl := List.mem_singleton.mp hnew
              exact hpiece

/-- Pieces without slashes lead to names without slashes. -/
theorem spelled_walkFrom {place final : Place} {pieces : List String} (hplace : Spelled place)
    (hpieces : ∀ piece ∈ pieces, '/' ∉ piece.toList)
    (h : t.walkFrom place pieces = .ok final) : Spelled final := by
  induction pieces generalizing place with
  | nil =>
    obtain rfl := Except.ok.inj h
    exact hplace
  | cons piece rest ih =>
    obtain ⟨next, hnext, h⟩ := ok_of_bind h
    have hspelled := spelled_enter hplace (hpieces piece List.mem_cons_self) hnext
    exact ih hspelled (fun p hp => hpieces p (List.mem_cons_of_mem piece hp)) h

/-- A path leads to names without slashes. -/
theorem spelled_resolve {path : String} {place : Place} (h : t.resolve path = .ok place) :
    Spelled place := by
  have hpieces : ∀ piece ∈ (pathPieces path).filter (· ≠ ""), '/' ∉ piece.toList := by
    intro piece hpiece
    obtain ⟨p, hp, rfl⟩ := List.mem_map.mp (List.mem_of_mem_filter hpiece)
    rw [String.toList_ofList]
    exact not_mem_of_mem_pieces hp
  obtain ⟨_, -, h⟩ := ok_of_bind h
  exact spelled_walkFrom (by simp [Spelled]) hpieces h

/-- Names without slashes are found again between the slashes of a key. -/
theorem key_inj {place other : Place} (hplace : Spelled place) (hother : Spelled other)
    (hne : place ≠ []) (hne' : other ≠ []) (h : key place = key other) : place = other := by
  have hsplit := String.toList_split_intercalate hplace
  have hsplit' := String.toList_split_intercalate hother
  rw [if_neg hne] at hsplit
  rw [if_neg hne'] at hsplit'
  rw [← hsplit, ← hsplit']
  exact congrArg (fun text : String => (text.split '/').toList.map (·.copy)) h

end FileTree

namespace Disk

variable {d d' : Disk} {h handle : Handle} {handles : List Handle} {path : String} {place : Place}
  {ts : Tables} {options : OpenOptions}

/-- Paths that lead to files with the same key lead to the same place. -/
theorem filePlace_inj {path' : String} {other : Place} (hplace : d.filePlace path = .ok place)
    (hother : d'.filePlace path' = .ok other) (hkey : FileTree.key place = FileTree.key other) :
    place = other :=
  FileTree.key_inj (FileTree.spelled_resolve (filePlace_eq_ok hplace).1)
    (FileTree.spelled_resolve (filePlace_eq_ok hother).1) (ne_top_of_filePlace hplace)
    (ne_top_of_filePlace hother) hkey

/-! ### Opening -/

/-- A new handle holds the file at the path that it was opened by. -/
theorem fileAt_of_attach (hattach : attach path d = .ok h d') :
    h.path = path ∧ ∃ ts, d'.FileAt path h.place (.database ts (some h.number)) := by
  rcases attach_eq path d with ⟨e, herror⟩ | ⟨place, ts, hplace, hvacant, hok⟩
  · rw [herror] at hattach
    cases hattach
  · rw [hok] at hattach
    cases hattach
    exact ⟨rfl, ts, hvacant.hold hplace⟩

/-- A file is locked only if it is held, and then nothing is done. -/
theorem held_of_attach {p : String} (hattach : attach path d = .error (.locked p) d') :
    p = path ∧ d' = d ∧ ∃ place ts n, d.FileAt path place (.database ts (some n)) := by
  unfold attach at hattach
  cases hplace : d.filePlace path with
  | error fault =>
    rw [hplace] at hattach
    cases hattach
  | ok place =>
    rw [hplace] at hattach
    dsimp only at hattach
    split at hattach
    · next ts n hnode =>
      cases hattach
      exact ⟨rfl, rfl, place, ts, n, hplace, hnode⟩
    · cases hattach
    · cases hattach
    · cases hattach

/-- A new handle holds the file that it was opened with. -/
theorem fileAt_of_openFile_ok (hfile : Disk.openFile options path d = .ok h d') :
    h.path = path ∧ ∃ ts, d'.FileAt path h.place (.database ts (some h.number)) := by
  obtain ⟨d₀, -, ⟨fault, herror⟩ | hattach⟩ := openFile_grown options path d
  · rw [herror] at hfile
    cases hfile
  · rw [hattach] at hfile
    exact fileAt_of_attach hfile

/-! ### Handles that are open -/

/-- A handle is open exactly if it holds a database. -/
theorem isOpen_iff : d.isOpen h = true ↔ ∃ ts, d.HoldsAt h ts := by
  constructor
  · intro hopen
    have hview : view (d.connection h) = some (d.connection h).tables := if_pos hopen
    exact ⟨_, holdsAt_of_view hview⟩
  · rintro ⟨ts, hholds⟩
    rw [isOpen, connection_of_holdsAt hholds]

/-- A handle on a file that nobody holds is closed. -/
theorem FileAt.isOpen_free (hd : d.FileAt path h.place (.database ts none)) :
    d.isOpen h = false := by
  rw [isOpen, hd.connection_closed]

/-- A handle that holds the file is open. -/
theorem FileAt.isOpen_held (hd : d.FileAt path h.place (.database ts (some h.number))) :
    d.isOpen h = true :=
  isOpen_iff.mpr ⟨ts, ne_top_of_filePlace hd.place_eq, hd.node_eq⟩

/-- What holds a database on a disk that has grown has held it before. -/
theorem isOpen_of_grown (hgrown : d.Grown d') (hopen : d'.isOpen h = true) : d.isOpen h = true := by
  obtain ⟨ts, hne, hnode⟩ := isOpen_iff.mp hopen
  rcases hgrown.files.new h.place _ hnode with hold | hdirectory
  · exact isOpen_iff.mpr ⟨ts, hne, hold⟩
  · cases hdirectory

/-- When a file is taken hold of, only the new handle is opened. -/
theorem isOpen_of_hold (path : String) (hplace : place ≠ [])
    (hopen : (d.hold path place ts).2.isOpen h = true) :
    d.isOpen h = true ∨ h.number = d.issued := by
  obtain ⟨us, hne, hnode⟩ := isOpen_iff.mp hopen
  change (d.files.put place (.database ts (some d.issued))).node? h.place = _ at hnode
  by_cases hkey : FileTree.key place = FileTree.key h.place
  · rw [← FileTree.node?_congr _ hplace hne hkey, FileTree.node?_put _ hplace] at hnode
    exact .inr (Option.some.inj (Node.database.inj (Option.some.inj hnode)).2).symm
  · rw [FileTree.node?_put_of_ne _ _ hkey] at hnode
    exact .inl (isOpen_iff.mpr ⟨us, hne, hnode⟩)

/-- When a file is opened, or the attempt fails, only a new handle is opened. -/
theorem isOpen_of_openFile (options : OpenOptions) (path : String)
    (hopen : (outcome (Disk.openFile options path) d).2.isOpen h = true) :
    d.isOpen h = true ∨ h.number = d.issued := by
  obtain ⟨d₀, hgrown, ⟨fault, herror⟩ | hattach⟩ := openFile_grown options path d
  · rw [outcome, herror] at hopen
    exact .inl (isOpen_of_grown hgrown hopen)
  · rw [outcome, hattach] at hopen
    rcases attach_eq path d₀ with ⟨e, herror⟩ | ⟨place, ts, hplace, -, hok⟩
    · rw [herror] at hopen
      exact .inl (isOpen_of_grown hgrown hopen)
    · rw [hok] at hopen
      rcases isOpen_of_hold path (ne_top_of_filePlace hplace) hopen with hbefore | hnew
      · exact .inl (isOpen_of_grown hgrown hbefore)
      · exact .inr (hnew.trans hgrown.issued)

/-- A program through a handle opens none. -/
theorem isOpen_of_through {ε α : Type} {x : EStateM ε Durable α}
    (hopen : (outcome (Disk.through handle x) d).2.isOpen h = true) : d.isOpen h = true := by
  rw [outcome_through] at hopen
  cases hbefore : (d.connection handle).isOpen with
  | false => rwa [settle_of_closed hbefore] at hopen
  | true =>
    obtain ⟨ts, hne, hnode⟩ := isOpen_iff.mp hbefore
    obtain ⟨us, hne', hnode'⟩ := isOpen_iff.mp hopen
    rw [settle, if_pos hbefore] at hnode'
    change (d.files.put handle.place _).node? h.place = _ at hnode'
    by_cases hkey : FileTree.key handle.place = FileTree.key h.place
    · -- The file is held by the handle that the program ran through, if by any.
      rw [← FileTree.node?_congr _ hne hne' hkey, FileTree.node?_put _ hne] at hnode'
      have hholder := (Node.database.inj (Option.some.inj hnode')).2
      split at hholder
      · rw [FileTree.node?_congr _ hne hne' hkey, Option.some.inj hholder] at hnode
        exact isOpen_iff.mpr ⟨ts, hne', hnode⟩
      · cases hholder
    · rw [FileTree.node?_put_of_ne _ _ hkey] at hnode'
      exact isOpen_iff.mpr ⟨us, hne', hnode'⟩

/-! ### The invariant -/

/-- Every database that is held is held by one of the handles that have been given out. Each of
    these has a number of its own, and its path leads to a database. -/
structure Tended (d : Disk) (handles : List Handle) : Prop where
  numbers : (handles.map Handle.number).Nodup
  issued : ∀ h ∈ handles, h.number < d.issued
  placed : ∀ h ∈ handles, ∃ ts holder, d.FileAt h.path h.place (.database ts holder)
  held : ∀ place ts n, d.files.node? place = some (.database ts (some n)) →
    ∃ h ∈ handles, FileTree.key h.place = FileTree.key place ∧ h.number = n

/-- On a disk on which nobody holds a database no handle needs to have been given out. -/
theorem tended_nil (hfree : ∀ place ts n, d.files.node? place ≠ some (.database ts (some n))) :
    d.Tended [] :=
  ⟨List.nodup_nil, by simp, by simp, fun place ts n hnode => absurd hnode (hfree place ts n)⟩

namespace Tended

/-- **At most one handle holds a file.** -/
theorem unique (hd : d.Tended handles) {a b : Handle} (ha : a ∈ handles) (hb : b ∈ handles)
    (hopena : d.isOpen a = true) (hopenb : d.isOpen b = true) (hplace : a.place = b.place) :
    a = b := by
  obtain ⟨ts, hholdsa⟩ := isOpen_iff.mp hopena
  obtain ⟨us, hholdsb⟩ := isOpen_iff.mp hopenb
  refine List.inj_on_of_nodup_map hd.numbers ha hb ?_
  have hnode := hholdsb.2
  rw [← hplace, hholdsa.2] at hnode
  exact Option.some.inj (Node.database.inj (Option.some.inj hnode)).2

/-- The invariant is kept while the tree grows. -/
theorem grown (hd : d.Tended handles) (hgrown : d.Grown d') : d'.Tended handles := by
  refine ⟨hd.numbers, fun h hh => ?_, fun h hh => ?_, fun place ts n hnode => ?_⟩
  · rw [hgrown.issued]
    exact hd.issued h hh
  · obtain ⟨ts, holder, hfile⟩ := hd.placed h hh
    have hkept := hgrown.files.kept
    exact ⟨ts, holder, hfile.of_keepsKinds hkept.keepsKinds (hkept _ _ hfile.node_eq)⟩
  · rcases hgrown.files.new place _ hnode with hold | hdirectory
    · exact hd.held place ts n hold
    · cases hdirectory

/-- A handle that takes hold of a file is given out with a number of its own. -/
theorem hold (hd : d.Tended handles) (hplace : d.filePlace path = .ok place)
    (hvacant : d.Vacant place ts) :
    (d.hold path place ts).2.Tended (handles ++ [(d.hold path place ts).1]) := by
  have hne := ne_top_of_filePlace hplace
  refine ⟨?_, fun h hh => ?_, fun h hh => ?_, fun other us n hnode => ?_⟩
  · -- The new number is larger than all that have been given out before.
    rw [List.map_append]
    refine hd.numbers.append (List.nodup_singleton _) fun n hn hnew => ?_
    obtain ⟨a, ha, rfl⟩ := List.mem_map.mp hn
    exact Nat.ne_of_lt (hd.issued a ha) (List.mem_singleton.mp hnew)
  · show h.number < d.issued + 1
    rcases List.mem_append.mp hh with hold | hnew
    · exact (hd.issued h hold).trans (Nat.lt_succ_self _)
    · obtain rfl := List.mem_singleton.mp hnew
      exact Nat.lt_succ_self _
  · rcases List.mem_append.mp hh with hold | hnew
    · obtain ⟨us, holder, hfile⟩ := hd.placed h hold
      obtain ⟨holder', hfile'⟩ := hfile.hold_any hvacant hplace
      exact ⟨us, holder', hfile'⟩
    · obtain rfl := List.mem_singleton.mp hnew
      exact ⟨ts, _, hvacant.hold hplace⟩
  · -- A database is held by the new handle if it is the one that was taken hold of.
    change (d.files.put place (.database ts (some d.issued))).node? other = _ at hnode
    have hother : other ≠ [] := by
      rintro rfl
      cases hnode
    by_cases hkey : FileTree.key place = FileTree.key other
    · rw [← FileTree.node?_congr _ hne hother hkey, FileTree.node?_put _ hne] at hnode
      cases hnode
      exact ⟨_, List.mem_append_right _ (List.mem_singleton_self _), hkey, rfl⟩
    · rw [FileTree.node?_put_of_ne _ _ hkey] at hnode
      obtain ⟨h, hh, hsame, hnumber⟩ := hd.held other us n hnode
      exact ⟨h, List.mem_append_left _ hh, hsame, hnumber⟩

/-- A handle that has been given out holds its file or not after it has been used. -/
theorem through {ε α : Type} (hd : d.Tended handles) (hmem : handle ∈ handles)
    (x : EStateM ε Durable α) : (outcome (Disk.through handle x) d).2.Tended handles := by
  have hplaced : ∀ h ∈ handles, ∃ ts holder,
      (outcome (Disk.through handle x) d).2.FileAt h.path h.place (.database ts holder) := by
    intro h hh
    obtain ⟨ts, holder, hfile⟩ := hd.placed h hh
    obtain ⟨us, holder', hfile', -⟩ := hfile.through_any handle x
    exact ⟨us, holder', hfile'⟩
  rw [outcome_through] at hplaced ⊢
  cases hopen : (d.connection handle).isOpen with
  | false =>
    rw [settle_of_closed hopen]
    exact hd
  | true =>
    obtain ⟨ts, hne, hnode⟩ := isOpen_iff.mp hopen
    rw [settle, if_pos hopen] at hplaced ⊢
    refine ⟨hd.numbers, hd.issued, hplaced, fun other us n hother => ?_⟩
    -- The file of the handle is held by it, if at all, and the others by whoever held them.
    by_cases hkey : FileTree.key handle.place = FileTree.key other
    · have hothertop : other ≠ [] := by
        rintro rfl
        cases hother
      change (d.files.put handle.place _).node? other = _ at hother
      rw [← FileTree.node?_congr _ hne hothertop hkey, FileTree.node?_put _ hne] at hother
      split at hother
      · cases hother
        exact ⟨handle, hmem, hkey, rfl⟩
      · cases hother
    · change (d.files.put handle.place _).node? other = _ at hother
      rw [FileTree.node?_put_of_ne _ _ hkey] at hother
      exact hd.held other us n hother

/-- A handle that is closed need not be counted. -/
theorem forget (hd : d.Tended (handles ++ [handle])) (hclosed : d.isOpen handle = false) :
    d.Tended handles := by
  have hsub : ∀ h ∈ handles, h ∈ handles ++ [handle] := fun h hh => List.mem_append_left _ hh
  have hnumbers := hd.numbers
  rw [List.map_append] at hnumbers
  refine ⟨hnumbers.of_append_left, fun h hh => hd.issued h (hsub h hh),
    fun h hh => hd.placed h (hsub h hh), fun place ts n hnode => ?_⟩
  obtain ⟨h, hh, hkey, hnumber⟩ := hd.held place ts n hnode
  rcases List.mem_append.mp hh with hold | hnew
  · exact ⟨h, hold, hkey, hnumber⟩
  · -- The handle would be open.
    obtain rfl := List.mem_singleton.mp hnew
    obtain ⟨us, holder, hfile⟩ := hd.placed h hh
    have hne := ne_top_of_filePlace hfile.place_eq
    have hplace : place ≠ [] := by
      rintro rfl
      cases hnode
    rw [← FileTree.node?_congr _ hne hplace hkey, ← hnumber] at hnode
    rw [isOpen_iff.mpr ⟨ts, hne, hnode⟩] at hclosed
    cases hclosed

/-- A handle that a file has been opened with is given out. -/
theorem openFile (hd : d.Tended handles) (hfile : Disk.openFile options path d = .ok h d') :
    d'.Tended (handles ++ [h]) := by
  obtain ⟨d₀, hgrown, ⟨fault, herror⟩ | hattach⟩ := openFile_grown options path d
  · rw [herror] at hfile
    cases hfile
  · rw [hattach] at hfile
    rcases attach_eq path d₀ with ⟨e, herror⟩ | ⟨place, ts, hplace, hvacant, hok⟩
    · rw [herror] at hfile
      cases hfile
    · rw [hok] at hfile
      cases hfile
      exact (hd.grown hgrown).hold hplace hvacant

/-- A file that cannot be opened is nobody else's than before. -/
theorem openFile_error {e : StorageError} (hd : d.Tended handles)
    (hfile : Disk.openFile options path d = .error e d') : d'.Tended handles := by
  obtain ⟨d₀, hgrown, ⟨fault, herror⟩ | hattach⟩ := openFile_grown options path d
  · rw [herror] at hfile
    cases hfile
    exact hd.grown hgrown
  · rw [hattach] at hfile
    rcases attach_eq path d₀ with ⟨e', herror⟩ | ⟨place, ts, -, -, hok⟩
    · rw [herror] at hfile
      cases hfile
      exact hd.grown hgrown
    · rw [hok] at hfile
      cases hfile

/-- A caller is locked out of a file only by a handle that holds it. -/
theorem held_of_locked {p : String} (hd : d.Tended handles)
    (hfile : Disk.openFile options path d = .error (.locked p) d') :
    p = path ∧ ∃ h ∈ handles, d'.isOpen h = true ∧ d'.filePlace path = .ok h.place := by
  have hd' := hd.openFile_error hfile
  obtain ⟨d₀, -, ⟨fault, herror⟩ | hattach⟩ := openFile_grown options path d
  · rw [herror] at hfile
    cases hfile
  · rw [hattach] at hfile
    obtain ⟨rfl, rfl, place, ts, n, hheld⟩ := held_of_attach hfile
    -- The holder's own path leads to a place with the same key, which is the same place.
    obtain ⟨h, hh, hkey, rfl⟩ := hd'.held place ts n hheld.node_eq
    obtain ⟨us, holder, hplaced⟩ := hd'.placed h hh
    obtain rfl := filePlace_inj hplaced.place_eq hheld.place_eq hkey
    exact ⟨rfl, h, hh, isOpen_iff.mpr ⟨ts, ne_top_of_filePlace hheld.place_eq, hheld.node_eq⟩,
      hheld.place_eq⟩

end Tended

end Disk

end TableVault.Storage
