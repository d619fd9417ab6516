import TableVault.Proofs.Storage.Holding
import TableVault.Proofs.Vault.Binding

namespace TableVault

open Storage Padlock

/-!
# One holder for each file

Any number of callers open stores and raw backends on a disk, use and close them, and run crypt
resets, by whichever paths and in any order.

* `Shared` and `Deed` — a disk with the handles that have been given out on it, and what a
  caller does. An open is one deed, or two between which others have their turn: the file is
  opened, and then unlocked through its handle. An open that waits makes several attempts, each
  of which is a deed;
* `Shared.Tended` — the invariant, which every deed keeps (`Tended.step`) and every run
  (`Tended.run`);
* `OneHolder` — at most one handle holds a file, everyone else is locked out of it, and nobody
  stays locked out because of an open that failed or a crypt reset;
* `one_holder` — so it is after every run.
-/

/-! ### Deeds -/

/-- What a caller does. Handles are counted in the order in which they have been given out; a
    handle stands for all its clones. -/
inductive Deed where
  /-- A store is opened, or the attempt fails. -/
  | openStore (config : Config) (path : String) (fresh : Fresh) (padlock : Bytes)
  /-- A file is opened as a raw backend, or the attempt fails. -/
  | openFile (options : OpenOptions) (path : String)
  /-- Any program is run through a handle. -/
  | use (index : Nat) (program : Action Durable Unit)
  /-- A handle is closed. -/
  | close (index : Nat)
  /-- The crypt reset of a file. -/
  | cryptReset (config : Config) (path : String)

/-- A disk, and the handles that have been given out on it. -/
structure Shared where
  disk : Disk
  handles : List Handle

namespace Shared

/-- A disk on which no handle has been given out. -/
def start (disk : Disk) : Shared := ⟨disk, []⟩

/-- What is shared after a program has run through a handle. -/
def through {ε α : Type} (w : Shared) (index : Nat) (program : EStateM ε Durable α) : Shared :=
  match w.handles[index]? with
  | some h => ⟨(outcome (Disk.through h program) w.disk).2, w.handles⟩
  | none => w

/-- What is shared after an attempt to get a handle. -/
def given {ε α : Type} (w : Shared) (handle : α → Handle) : EStateM.Result ε Disk α → Shared
  | .ok a disk => ⟨disk, w.handles ++ [handle a]⟩
  | .error _ disk => ⟨disk, w.handles⟩

/-- What is shared after a deed. -/
def step (w : Shared) : Deed → Shared
  | .openStore config path fresh padlock =>
    w.given Prod.fst (Database.openStore config path fresh padlock w.disk)
  | .openFile options path => w.given id (Disk.openFile options path w.disk)
  | .use index program => w.through index program
  | .close index => w.through index (Backend.close : StorageAction Durable Unit)
  | .cryptReset config path => ⟨(outcome (Database.cryptReset config path) w.disk).2, w.handles⟩

/-- What is shared after several deeds. -/
def run (w : Shared) (deeds : List Deed) : Shared :=
  deeds.foldl step w

end Shared

/-! ### Opening and resetting -/

section Attempts

variable {config : Config} {path : String} {d d' d₁ : Disk} {h : Handle} {fresh : Fresh}
  {padlock : Bytes} {ts : Tables}

/-- The file at a path can be taken hold of: an open, with whatever options, is given a handle. -/
def Available (d : Disk) (path : String) : Prop :=
  ∀ options, ∃ h d', Disk.openFile options path d = .ok h d'

/-- A file that nobody holds can be taken hold of. -/
theorem available_of_free {place : Place} (hd : d.FileAt path place (.database ts none)) :
    Available d path :=
  fun options => ⟨_, _, hd.openFile_free options⟩

/-- A store that cannot be unlocked leaves its file to others. -/
theorem free_of_openStore_error {e : VaultError}
    (hfile : Disk.openFile config.openOptions path d = .ok h d₁)
    (hstore : Database.openStore config path fresh padlock d = .error e d') :
    ∃ ts, d'.FileAt path h.place (.database ts none) := by
  obtain ⟨-, ts, hd₁⟩ := Disk.fileAt_of_openFile_ok hfile
  rcases openStore_outcome hfile hd₁ fresh padlock with
    ⟨master, d₂, -, hok, -⟩ | ⟨e', d₂, -, herror, hfree⟩
  · rw [hok] at hstore
    cases hstore
  · rw [herror] at hstore
    cases hstore
    exact ⟨_, hfree⟩

/-- A store that has been opened holds its file. -/
theorem held_of_openStore {store : Store}
    (hstore : Database.openStore config path fresh padlock d = .ok (h, store) d') :
    ∃ d₁ ts, Disk.openFile config.openOptions path d = .ok h d₁ ∧
      d'.FileAt path h.place (.database ts (some h.number)) := by
  cases hfile : Disk.openFile config.openOptions path d with
  | error e d₁ =>
    rw [openStore_error hfile] at hstore
    cases hstore
  | ok h₁ d₁ =>
    obtain ⟨-, ts, hd₁⟩ := Disk.fileAt_of_openFile_ok hfile
    rcases openStore_outcome hfile hd₁ fresh padlock with
      ⟨master, d₂, -, hok, hheld⟩ | ⟨e', d₂, -, herror, -⟩
    · rw [hok] at hstore
      cases hstore
      exact ⟨d₁, _, rfl, hheld⟩
    · rw [herror] at hstore
      cases hstore

/-- Giving up a handle is closing it, whatever closing answers. -/
theorem release_eq (d : Disk) (h : Handle) :
    d.release h = (outcome (Disk.through h (Backend.close : StorageAction Durable Unit)) d).2 := by
  unfold Disk.release outcome
  cases Disk.through h (Backend.close : StorageAction Durable Unit) d <;> rfl

/-- The crypt reset of a file that can be opened runs through its handle and then gives the handle
    up. It does not fail, and leaves the file to others. -/
theorem cryptReset_outcome
    (hfile : Disk.openFile { config.openOptions with createIfMissing := false } path d = .ok h d₁) :
    ∃ n d₂, Database.cryptReset config path d = .ok n d₂ ∧
      d₂ = ((outcome (Disk.through h Padlock.reset) d₁).2).release h ∧
      ∃ ts, d₂.FileAt path h.place (.database ts none) := by
  obtain ⟨-, ts, hd₁⟩ := Disk.fileAt_of_openFile_ok hfile
  obtain ⟨after, hrun, hafter⟩ := (reset_runs ts).outcome (fun h => h) hd₁.view_connection
  obtain ⟨hopened, htables⟩ := Durable.view_eq_some hafter
  have hsettle := hd₁.settle after
  rw [hopened, htables, if_pos rfl] at hsettle
  refine ⟨_, _, cryptReset_eq hfile hrun, ?_, _, hsettle.release⟩
  rw [Disk.outcome_through, outcome_of_answering hrun]

end Attempts

/-! ### The invariant -/

namespace Shared

variable {w : Shared} {h : Handle}

/-- Every database that is held is held by one of the handles that have been given out. -/
def Tended (w : Shared) : Prop := w.disk.Tended w.handles

/-- A program through a handle keeps the invariant. -/
theorem Tended.through {ε α : Type} (hw : w.Tended) (index : Nat) (program : EStateM ε Durable α) :
    (w.through index program).Tended := by
  unfold Shared.through
  split
  · next h hindex => exact Disk.Tended.through hw (List.mem_of_getElem? hindex) program
  · exact hw

/-- Opening a store, or attempting to, keeps the invariant. -/
theorem Tended.openStore (hw : w.Tended) (config : Config) (path : String) (fresh : Fresh)
    (padlock : Bytes) : (w.step (.openStore config path fresh padlock)).Tended := by
  rw [Shared.step]
  cases hfile : Disk.openFile config.openOptions path w.disk with
  | error e d =>
    rw [openStore_error hfile]
    exact Disk.Tended.openFile_error hw hfile
  | ok h d =>
    -- The file has been given out and the program that unlocks it has run through the handle.
    have hgiven : d.Tended (w.handles ++ [h]) := Disk.Tended.openFile hw hfile
    have hmem : h ∈ w.handles ++ [h] := List.mem_append_right _ (List.mem_singleton_self h)
    have hunlocked := hgiven.through hmem (Store.withBackend fresh padlock)
    rw [← outcome_openStore config path fresh padlock hfile, outcome] at hunlocked
    cases hstore : Database.openStore config path fresh padlock w.disk with
    | ok opened d' =>
      obtain ⟨h', store⟩ := opened
      obtain ⟨d₁, ts, hfile', -⟩ := held_of_openStore hstore
      rw [hfile] at hfile'
      cases hfile'
      rw [hstore] at hunlocked
      exact hunlocked
    | error e d' =>
      -- The handle has been given up again, so the invariant holds without it.
      obtain ⟨ts, hfree⟩ := free_of_openStore_error hfile hstore
      rw [hstore] at hunlocked
      exact hunlocked.forget hfree.isOpen_free

/-- The crypt reset keeps the invariant. -/
theorem Tended.cryptReset (hw : w.Tended) (config : Config) (path : String) :
    (w.step (.cryptReset config path)).Tended := by
  rw [Shared.step]
  cases hfile : Disk.openFile { config.openOptions with createIfMissing := false } path w.disk with
  | error e d =>
    rw [outcome, cryptReset_error hfile]
    exact Disk.Tended.openFile_error hw hfile
  | ok h d =>
    have hgiven : d.Tended (w.handles ++ [h]) := Disk.Tended.openFile hw hfile
    have hmem : h ∈ w.handles ++ [h] := List.mem_append_right _ (List.mem_singleton_self h)
    obtain ⟨n, d', hreset, hd', ts, hfree⟩ := cryptReset_outcome hfile
    -- Giving up the handle is one more program through it, after which nobody holds the file.
    have hreleased := (hgiven.through hmem Padlock.reset).through hmem
      (Backend.close : StorageAction Durable Unit)
    rw [← release_eq, ← hd'] at hreleased
    rw [outcome, hreset]
    exact hreleased.forget hfree.isOpen_free

/-- **Every deed keeps the invariant.** -/
theorem Tended.step (hw : w.Tended) (deed : Deed) : (w.step deed).Tended := by
  cases deed with
  | openStore config path fresh padlock => exact hw.openStore config path fresh padlock
  | openFile options path =>
    rw [Shared.step]
    cases hfile : Disk.openFile options path w.disk with
    | error e d => exact Disk.Tended.openFile_error hw hfile
    | ok h d => exact Disk.Tended.openFile hw hfile
  | use index program => exact hw.through index program
  | close index => exact hw.through index _
  | cryptReset config path => exact hw.cryptReset config path

/-- **A run keeps the invariant.** -/
theorem Tended.run (hw : w.Tended) (deeds : List Deed) : (w.run deeds).Tended := by
  induction deeds generalizing w with
  | nil => exact hw
  | cons deed rest ih => exact ih (hw.step deed)

/-! ### Handles that have been closed -/

/-- The disk after an attempt to get a handle is the one that the attempt has left. -/
theorem given_disk {ε α : Type} (w : Shared) (handle : α → Handle) (x : EStateM ε Disk α) :
    (w.given handle (x w.disk)).disk = (outcome x w.disk).2 := by
  unfold given outcome
  cases x w.disk <;> rfl

/-- What has been given out before a deed has been given out after it. -/
theorem mem_handles_step (hh : h ∈ w.handles) (deed : Deed) : h ∈ (w.step deed).handles := by
  have hgiven : ∀ {ε α : Type} (handle : α → Handle) (r : EStateM.Result ε Disk α),
      h ∈ (w.given handle r).handles := by
    intro ε α handle r
    cases r with
    | ok a disk => exact List.mem_append_left _ hh
    | error e disk => exact hh
  have hthrough : ∀ {ε α : Type} (index : Nat) (program : EStateM ε Durable α),
      h ∈ (w.through index program).handles := by
    intro ε α index program
    unfold Shared.through
    split
    · exact hh
    · exact hh
  cases deed with
  | openStore config path fresh padlock => exact hgiven _ _
  | openFile options path => exact hgiven _ _
  | use index program => exact hthrough index program
  | close index => exact hthrough index _
  | cryptReset config path => exact hh

/-- No attempt to open a file opens a handle that has been given out before. -/
theorem Tended.isOpen_openFile (hw : w.Tended) (options : OpenOptions) (path : String)
    (hh : h ∈ w.handles) (hopen : (outcome (Disk.openFile options path) w.disk).2.isOpen h = true) :
    w.disk.isOpen h = true := by
  rcases Disk.isOpen_of_openFile options path hopen with hbefore | hnew
  · exact hbefore
  · exact absurd hnew (Nat.ne_of_lt (hw.issued h hh))

/-- **No deed opens a handle that has been given out before.** -/
theorem Tended.isOpen_step (hw : w.Tended) (hh : h ∈ w.handles) (deed : Deed)
    (hopen : (w.step deed).disk.isOpen h = true) : w.disk.isOpen h = true := by
  have hthrough : ∀ {ε α : Type} (index : Nat) (program : EStateM ε Durable α),
      (w.through index program).disk.isOpen h = true → w.disk.isOpen h = true := by
    intro ε α index program hopen
    unfold Shared.through at hopen
    split at hopen
    · exact Disk.isOpen_of_through hopen
    · exact hopen
  cases deed with
  | openStore config path fresh padlock =>
    rw [Shared.step, given_disk] at hopen
    -- What unlocks the file runs through the new handle, and opens none.
    refine hw.isOpen_openFile config.openOptions path hh ?_
    cases hfile : Disk.openFile config.openOptions path w.disk with
    | error e d =>
      rw [outcome, openStore_error hfile] at hopen
      rw [outcome, hfile]
      exact hopen
    | ok h' d =>
      rw [outcome_openStore config path fresh padlock hfile] at hopen
      rw [outcome, hfile]
      exact Disk.isOpen_of_through hopen
  | openFile options path =>
    rw [Shared.step, given_disk] at hopen
    exact hw.isOpen_openFile options path hh hopen
  | use index program => exact hthrough index program hopen
  | close index => exact hthrough index _ hopen
  | cryptReset config path =>
    rw [Shared.step] at hopen
    refine hw.isOpen_openFile { config.openOptions with createIfMissing := false } path hh ?_
    cases hfile : Disk.openFile { config.openOptions with createIfMissing := false } path w.disk with
    | error e d =>
      rw [outcome, cryptReset_error hfile] at hopen
      rw [outcome, hfile]
      exact hopen
    | ok h' d =>
      obtain ⟨n, d', hreset, hd', -⟩ := cryptReset_outcome hfile
      rw [outcome, hreset] at hopen
      change d'.isOpen h = true at hopen
      rw [hd', release_eq] at hopen
      rw [outcome, hfile]
      exact Disk.isOpen_of_through (Disk.isOpen_of_through hopen)

/-- A handle that has been closed stays closed. -/
theorem Tended.closed_run (hw : w.Tended) (hh : h ∈ w.handles) (hclosed : w.disk.isOpen h = false)
    (deeds : List Deed) : (w.run deeds).disk.isOpen h = false := by
  induction deeds generalizing w with
  | nil => exact hclosed
  | cons deed rest ih =>
    refine ih (hw.step deed) (mem_handles_step hh deed) ?_
    rw [← Bool.not_eq_true] at hclosed ⊢
    exact mt (hw.isOpen_step hh deed) hclosed

end Shared

/-! ### What an open that fails answers -/

/-- An error that does not come from the storage. -/
def VaultError.OfVault : VaultError → Prop
  | .storage _ | .locked _ => False
  | _ => True

/-- A system record that cannot be read is no fault of the storage. -/
theorem ofVault_of_readRecord {s : Cbor.Shape} {key : String} {record : Option Bytes} {e : VaultError}
    (h : readRecord s key record = .error e) : e.OfVault := by
  cases record with
  | none => cases h
  | some record =>
    rw [readRecord] at h
    split at h
    · obtain rfl := Except.error.inj h
      exact trivial
    · cases h
    · next payload _ =>
      cases hread : decodeAs s payload with
      | error e' =>
        rw [hread] at h
        obtain rfl := Except.error.inj h
        exact trivial
      | ok a =>
        rw [hread] at h
        cases h
    · obtain rfl := Except.error.inj h
      exact trivial

/-- A lock record that cannot be opened is no fault of the storage. -/
theorem ofVault_of_openLock {state : Cbor.LockState} {padlock : Bytes} {e : VaultError}
    (h : openLock state padlock = .error e) : e.OfVault := by
  unfold openLock at h
  split at h
  · obtain rfl := Except.error.inj h
    exact trivial
  · split at h
    · obtain rfl := Except.error.inj h
      exact trivial
    · unfold Crypto.Sealer.unsealKey at h
      split at h
      · obtain rfl := Except.error.inj h
        exact trivial
      · split at h
        · obtain rfl := Except.error.inj h
          exact trivial
        · next plaintext _ =>
          unfold Crypto.MasterKey.ofBytes at h
          split at h
          · cases h
          · obtain rfl := Except.error.inj h
            exact trivial

/-- Tables that cannot be unlocked are no fault of the storage. -/
theorem ofVault_of_unlockEffect {fresh : Fresh} {padlock : Bytes} {ts : Tables} {e : VaultError}
    (h : (unlockEffect fresh padlock ts).1 = .error e) : e.OfVault := by
  have hopen : ∀ us : Tables, (openEffect fresh padlock us).1 = .error e → e.OfVault := by
    intro us hus
    unfold openEffect at hus
    cases hlock : lockOf us with
    | error e' =>
      rw [hlock] at hus
      obtain rfl := Except.error.inj hus
      exact ofVault_of_readRecord hlock
    | ok found =>
      rw [hlock] at hus
      cases found with
      | none => cases hus
      | some state => exact ofVault_of_openLock hus
  unfold unlockEffect at h
  cases hpending : pending ts with
  | error e' =>
    rw [hpending] at h
    obtain rfl := Except.error.inj h
    unfold pending at hpending
    cases hread : readRecord .bool resetKey (ts.find? systemTable resetKey) with
    | error e'' =>
      rw [hread] at hpending
      obtain rfl := Except.error.inj hpending
      exact ofVault_of_readRecord hread
    | ok found =>
      rw [hread] at hpending
      cases hpending
  | ok isPending =>
    rw [hpending] at h
    exact hopen _ h

/-! ### One holder for each file -/

/-- Nobody can open or reset the file at a path: it is locked, which at the level of the vault is
    an error of its own, and nothing is changed. -/
structure LockedOut (d : Disk) (path : String) : Prop where
  openFile : ∀ options, Disk.openFile options path d = .error (.locked path) d
  openStore : ∀ config fresh padlock,
    Database.openStore config path fresh padlock d = .error (.locked path) d
  cryptReset : ∀ config, Database.cryptReset config path d = .error (.locked path) d

/-- An attempt to open or reset the file at a path is answered that a file is locked. -/
inductive Refused (d : Disk) (path locked : String) (d' : Disk) : Prop
  | openFile (options : OpenOptions) (h : Disk.openFile options path d = .error (.locked locked) d')
  | openStore (config : Config) (fresh : Fresh) (padlock : Bytes)
    (h : Database.openStore config path fresh padlock d = .error (.locked locked) d')
  | cryptReset (config : Config)
    (h : Database.cryptReset config path d = .error (.locked locked) d')

/-- A file that is not there and must not be created cannot be opened or reset, and nothing is
    changed. -/
structure Missing (d : Disk) (path : String) : Prop where
  openFile : ∀ options : OpenOptions, options.createIfMissing = false →
    Disk.openFile options path d = .error (.io (.missing path)) d
  openStore : ∀ (config : Config) fresh padlock, config.createIfMissing = false →
    Database.openStore config path fresh padlock d = .error (.storage (.io (.missing path))) d
  cryptReset : ∀ config,
    Database.cryptReset config path d = .error (.storage (.io (.missing path))) d

/-- Each file has one holder at most, who alone keeps the others out of it. -/
structure OneHolder (w : Shared) : Prop where
  /-- No two handles are open on one file. -/
  unique : ∀ a ∈ w.handles, ∀ b ∈ w.handles, w.disk.isOpen a = true → w.disk.isOpen b = true →
    a.place = b.place → a = b
  /-- An open that succeeds gives a handle that is open. -/
  openFile_holds : ∀ options path h d', Disk.openFile options path w.disk = .ok h d' →
    h.path = path ∧ d'.isOpen h = true
  openStore_holds : ∀ config path fresh padlock h store d',
    Database.openStore config path fresh padlock w.disk = .ok (h, store) d' →
      h.path = path ∧ d'.isOpen h = true
  /-- While a handle is open, everyone else is locked out of its file, by its path and by any
      other that leads there. -/
  lockedOut : ∀ h ∈ w.handles, w.disk.isOpen h = true →
    w.disk.filePlace h.path = .ok h.place ∧
      ∀ path, w.disk.filePlace path = .ok h.place → LockedOut w.disk path
  /-- Only a handle that is open on the file locks anyone out of it. -/
  onlyByHolder : ∀ path locked d', Refused w.disk path locked d' → locked = path ∧
    ∃ h ∈ w.handles, w.disk.isOpen h = true ∧ d'.filePlace path = .ok h.place
  /-- The vault does not pass a lock on as an error of the storage. -/
  unwrapped : ∀ config path fresh padlock locked d',
    Database.openStore config path fresh padlock w.disk ≠ .error (.storage (.locked locked)) d' ∧
      Database.cryptReset config path w.disk ≠ .error (.storage (.locked locked)) d'
  /-- A store that cannot be unlocked leaves its file to others. -/
  openStore_frees : ∀ config path fresh padlock h d₁ e d',
    Disk.openFile (Config.openOptions config) path w.disk = .ok h d₁ →
      Database.openStore config path fresh padlock w.disk = .error e d' → Available d' path
  unlock_frees : ∀ h ∈ w.handles, w.disk.isOpen h = true → ∀ fresh padlock e d',
    Disk.through h (Store.withBackend fresh padlock) w.disk = .error e d' → Available d' h.path
  /-- So does the crypt reset, whatever its result. -/
  cryptReset_frees : ∀ config path h d₁,
    Disk.openFile { Config.openOptions config with createIfMissing := false } path w.disk =
        .ok h d₁ →
      Available (outcome (Database.cryptReset config path) w.disk).2 path
  /-- Closing a handle succeeds. It leaves the file to others if the handle was open, and does
      nothing if it was not. -/
  closes : ∀ h ∈ w.handles, ∃ d',
    Disk.through h (Backend.close : StorageAction Durable Unit) w.disk = .ok () d' ∧
      (∀ store : Store, Disk.through h store.close w.disk = .ok () d') ∧
      (w.disk.isOpen h = true → Available d' h.path) ∧ (w.disk.isOpen h = false → d' = w.disk)
  /-- A handle that is closed stays closed, whoever opens the file after that. -/
  staysClosed : ∀ h ∈ w.handles, w.disk.isOpen h = false → ∀ deeds,
    (w.run deeds).disk.isOpen h = false
  /-- A file that must not be created is not. -/
  missing : ∀ path, w.disk.fileExists path = false → Missing w.disk path

section Holders

variable {d d' : Disk} {h : Handle} {path : String} {place : Place} {ts : Tables} {w : Shared}

/-- Everyone is locked out of a file that is held. -/
theorem lockedOut_of_held {n : Nat} (hd : d.FileAt path place (.database ts (some n))) :
    LockedOut d path where
  openFile := hd.openFile_held
  openStore config _ _ := openStore_error (hd.openFile_held config.openOptions)
  cryptReset _ := cryptReset_error (hd.openFile_held _)

/-- A file that is not there is missing if it must not be created. -/
theorem missing_of_absent (habsent : d.fileExists path = false) : Missing d path := by
  have hopen : ∀ options : OpenOptions, options.createIfMissing = false →
      Disk.openFile options path d = .error (.io (.missing path)) d := by
    intro options hoptions
    refine bind_of_error ?_ _
    rw [Disk.prepare, if_neg (by simp [habsent]), if_pos (by simp [hoptions])]
  exact ⟨hopen, fun _ _ _ hconfig => openStore_error (hopen _ hconfig),
    fun _ => cryptReset_error (hopen _ rfl)⟩

/-- A store cannot be opened because its file cannot be, or because it cannot be unlocked. -/
theorem openStore_error_cases {config : Config} {fresh : Fresh} {padlock : Bytes} {e : VaultError}
    (hstore : Database.openStore config path fresh padlock d = .error e d') :
    (∃ cause, Disk.openFile config.openOptions path d = .error cause d' ∧ e = .ofStorage cause) ∨
      e.OfVault := by
  cases hfile : Disk.openFile config.openOptions path d with
  | error cause d₁ =>
    rw [openStore_error hfile] at hstore
    cases hstore
    exact .inl ⟨cause, rfl, rfl⟩
  | ok h d₁ =>
    obtain ⟨-, ts, hd₁⟩ := Disk.fileAt_of_openFile_ok hfile
    rcases openStore_outcome hfile hd₁ fresh padlock with
      ⟨master, d₂, -, hok, -⟩ | ⟨e', d₂, hanswer, herror, -⟩
    · rw [hok] at hstore
      cases hstore
    · rw [herror] at hstore
      cases hstore
      exact .inr (ofVault_of_unlockEffect hanswer)

/-- The crypt reset cannot be run only because the file cannot be opened. -/
theorem cryptReset_error_cases {config : Config} {e : VaultError}
    (hreset : Database.cryptReset config path d = .error e d') :
    ∃ cause, Disk.openFile { config.openOptions with createIfMissing := false } path d =
      .error cause d' ∧ e = .ofStorage cause := by
  cases hfile : Disk.openFile { config.openOptions with createIfMissing := false } path d with
  | error cause d₁ =>
    rw [cryptReset_error hfile] at hreset
    cases hreset
    exact ⟨cause, rfl, rfl⟩
  | ok h d₁ =>
    obtain ⟨n, d₂, hok, -⟩ := cryptReset_outcome hfile
    rw [hok] at hreset
    cases hreset

/-- A lock is passed on as what it is. -/
theorem ofStorage_eq_locked {cause : StorageError} {locked : String}
    (h : VaultError.locked locked = .ofStorage cause) : cause = .locked locked := by
  cases cause with
  | locked path =>
    obtain rfl := VaultError.locked.inj h
    rfl
  | _ => cases h

/-- A lock is not passed on as an error of the storage. -/
theorem ofStorage_ne_wrapped (cause : StorageError) (locked : String) :
    VaultError.storage (.locked locked) ≠ .ofStorage cause := by
  cases cause <;> simp [VaultError.ofStorage]

/-- Whoever is refused has been refused when the file was opened. -/
theorem Refused.openFile_eq {locked : String} (hrefused : Refused d path locked d') :
    ∃ options, Disk.openFile options path d = .error (.locked locked) d' := by
  cases hrefused with
  | openFile options h => exact ⟨options, h⟩
  | openStore config fresh padlock h =>
    rcases openStore_error_cases h with ⟨cause, hfile, he⟩ | hvault
    · rw [ofStorage_eq_locked he] at hfile
      exact ⟨_, hfile⟩
    · exact hvault.elim
  | cryptReset config h =>
    obtain ⟨cause, hfile, he⟩ := cryptReset_error_cases h
    rw [ofStorage_eq_locked he] at hfile
    exact ⟨_, hfile⟩

/-- A handle that has been given out and is open holds the file at its path. -/
theorem Shared.Tended.fileAt (hw : w.Tended) (hh : h ∈ w.handles) (hopen : w.disk.isOpen h = true) :
    ∃ ts, w.disk.FileAt h.path h.place (.database ts (some h.number)) := by
  obtain ⟨ts, hholds⟩ := Disk.isOpen_iff.mp hopen
  obtain ⟨us, holder, hfile⟩ := hw.placed h hh
  exact ⟨ts, hfile.place_eq, hholds.2⟩

/-- A file that cannot be unlocked through its handle is left to others. -/
theorem available_of_withBackend_error (hd : d.FileAt path h.place (.database ts (some h.number)))
    {fresh : Fresh} {padlock : Bytes} {e : VaultError}
    (herror : Disk.through h (Store.withBackend fresh padlock) d = .error e d') :
    Available d' path := by
  rcases withBackend_outcome fresh padlock hd.view_connection with
    ⟨master, after, -, hrun, -⟩ | ⟨e', after, -, hrun, hclosed, htables⟩
  · rw [Disk.through_of_answering (r := .ok (Store.ofMaster master)) hrun] at herror
    cases herror
  · rw [Disk.through_of_answering (r := .error e') hrun] at herror
    cases herror
    -- The connection has been closed before the error was passed on.
    have hsettle := hd.settle after
    rw [hclosed, if_neg (by simp)] at hsettle
    exact available_of_free hsettle

/-- **Where the invariant holds, each file has one holder at most.** -/
theorem Shared.Tended.oneHolder (hw : w.Tended) : OneHolder w where
  unique a ha b hb hopena hopenb hplace := Disk.Tended.unique hw ha hb hopena hopenb hplace
  openFile_holds options path h d' hfile := by
    obtain ⟨hpath, ts, hd'⟩ := Disk.fileAt_of_openFile_ok hfile
    exact ⟨hpath, hd'.isOpen_held⟩
  openStore_holds config path fresh padlock h store d' hstore := by
    obtain ⟨d₁, ts, hfile, hd'⟩ := held_of_openStore hstore
    exact ⟨(Disk.fileAt_of_openFile_ok hfile).1, hd'.isOpen_held⟩
  lockedOut h hh hopen := by
    obtain ⟨ts, hfile⟩ := hw.fileAt hh hopen
    exact ⟨hfile.place_eq, fun path hplace => lockedOut_of_held ⟨hplace, hfile.node_eq⟩⟩
  onlyByHolder path locked d' hrefused := by
    obtain ⟨options, hfile⟩ := hrefused.openFile_eq
    obtain ⟨hpath, h, hh, hopen, hplace⟩ := Disk.Tended.held_of_locked hw hfile
    refine ⟨hpath, h, hh, hw.isOpen_openFile options path hh ?_, hplace⟩
    rw [outcome, hfile]
    exact hopen
  unwrapped config path fresh padlock locked d' := by
    constructor
    · intro hstore
      rcases openStore_error_cases hstore with ⟨cause, -, he⟩ | hvault
      · exact ofStorage_ne_wrapped cause locked he
      · exact hvault.elim
    · intro hreset
      obtain ⟨cause, -, he⟩ := cryptReset_error_cases hreset
      exact ofStorage_ne_wrapped cause locked he
  openStore_frees config path fresh padlock h d₁ e d' hfile hstore := by
    obtain ⟨ts, hfree⟩ := free_of_openStore_error hfile hstore
    exact available_of_free hfree
  unlock_frees h hh hopen fresh padlock e d' herror := by
    obtain ⟨ts, hfile⟩ := hw.fileAt hh hopen
    exact available_of_withBackend_error hfile herror
  cryptReset_frees config path h d₁ hfile := by
    obtain ⟨n, d₂, hreset, -, ts, hfree⟩ := cryptReset_outcome hfile
    rw [outcome, hreset]
    exact available_of_free hfree
  closes h hh := by
    refine ⟨_, rfl, fun _ => rfl, fun hopen => ?_, fun hclosed => Disk.settle_of_closed hclosed⟩
    obtain ⟨ts, hfile⟩ := hw.fileAt hh hopen
    exact available_of_free (hfile.settle { w.disk.connection h with isOpen := false })
  staysClosed h hh hclosed deeds := hw.closed_run hh hclosed deeds
  missing path habsent := missing_of_absent habsent

end Holders

/-- **Each file has one holder at most**, after any run of any callers on a disk on which nobody
    holds a file at first. -/
theorem one_holder {disk : Disk}
    (hfree : ∀ place ts n, disk.files.node? place ≠ some (.database ts (some n)))
    (deeds : List Deed) : OneHolder ((Shared.start disk).run deeds) := by
  have hstart : (Shared.start disk).Tended := Disk.tended_nil hfree
  exact (hstart.run deeds).oneHolder

/-- A file has been opened, closed and opened again. Everyone is locked out of it, closing the
    first handle once more changes nothing, and closing the second leaves the file to others. -/
theorem one_holder_reopened :
    let start := Shared.start (Disk.empty.put ["vault"] (.foreign []))
    let w := start.run [.openFile {} "vault", .close 0, .openFile {} "vault"]
    ∃ stale holder, w.handles = [stale, holder] ∧ LockedOut w.disk "vault" ∧
      Disk.through stale (Backend.close : StorageAction Durable Unit) w.disk = .ok () w.disk ∧
      ∃ d, Disk.through holder (Backend.close : StorageAction Durable Unit) w.disk = .ok () d ∧
        Available d "vault" := by
  intro start w
  have hstart : start.disk.FileAt "vault" ["vault"] (.foreign []) := ⟨rfl, rfl⟩
  have hunheld : ∀ place ts n, start.disk.files.node? place ≠ some (.database ts (some n)) := by
    intro place ts n hnode
    have hplace : place ≠ [] := by
      rintro rfl
      cases hnode
    by_cases hkey : FileTree.key ["vault"] = FileTree.key place
    · rw [← FileTree.node?_congr _ (by simp) hplace hkey, hstart.node_eq] at hnode
      cases hnode
    · change (Disk.empty.files.put ["vault"] (.foreign [])).node? place = _ at hnode
      rw [FileTree.node?_put_of_ne _ _ hkey] at hnode
      simp [FileTree.node?, hplace, Disk.empty, FileTree.empty] at hnode
  -- The disks and the handles after each deed.
  obtain ⟨stale, d₁, hfile, hheld⟩ : ∃ stale d₁, Disk.openFile {} "vault" start.disk =
      .ok stale d₁ ∧ d₁.FileAt "vault" stale.place (.database ∅ (some stale.number)) :=
    ⟨_, _, hstart.openFile_empty {}, hstart.hold ∅⟩
  let d₂ := (outcome (Disk.through stale (Backend.close : StorageAction Durable Unit)) d₁).2
  have hfree : d₂.FileAt "vault" stale.place (.database ∅ none) := hheld.through _ rfl
  obtain ⟨holder, d₃, hagain, hheld'⟩ : ∃ holder d₃, Disk.openFile {} "vault" d₂ =
      .ok holder d₃ ∧ d₃.FileAt "vault" holder.place (.database ∅ (some holder.number)) :=
    ⟨_, _, hfree.openFile_free {}, hfree.hold ∅⟩
  have hclosed : start.run [.openFile {} "vault", .close 0] = ⟨d₂, [stale]⟩ := by
    change (start.step (.openFile {} "vault")).step (.close 0) = _
    rw [Shared.step, hfile]
    rfl
  have hw : w = ⟨d₃, [stale, holder]⟩ := by
    change (start.run [.openFile {} "vault", .close 0]).step (.openFile {} "vault") = _
    rw [hclosed, Shared.step, hagain]
    rfl
  -- The first handle has been closed before the file was opened again.
  have hbefore : OneHolder (start.run [.openFile {} "vault", .close 0]) := one_holder hunheld _
  rw [hclosed] at hbefore
  have hrun : (Shared.mk d₂ [stale]).run [.openFile {} "vault"] = w := by
    rw [← hclosed]
    rfl
  have hstale := hbefore.staysClosed stale (by simp) hfree.isOpen_free [.openFile {} "vault"]
  rw [hrun] at hstale
  have hholder : OneHolder w :=
    one_holder hunheld [.openFile {} "vault", .close 0, .openFile {} "vault"]
  have hopen : w.disk.isOpen holder = true := by
    rw [hw]
    exact hheld'.isOpen_held
  obtain ⟨d, hclose, -, -, hsame⟩ := hholder.closes stale (by simp [hw])
  obtain ⟨d', hclose', -, havailable, -⟩ := hholder.closes holder (by simp [hw])
  obtain ⟨-, hlocked⟩ := hholder.lockedOut holder (by simp [hw]) hopen
  have hpath : holder.path = "vault" := (Disk.fileAt_of_openFile_ok hagain).1
  refine ⟨stale, holder, by rw [hw], hlocked "vault" ?_, ?_, d', hclose', hpath ▸ havailable hopen⟩
  · rw [hw]
    exact hheld'.place_eq
  · rw [hclose, hsame hstale]

end TableVault
