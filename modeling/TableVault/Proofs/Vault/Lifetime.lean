import TableVault.Database
import TableVault.Proofs.Storage.OneFile
import TableVault.Proofs.Vault.Phases

namespace TableVault

open Storage Record Padlock

/-!
# The life of a vault in a file

A database file is opened, used, closed and reset over and over, and the process may die
in front of any write of opening or of the reset.

* `Event` and `World.step` — what happens to the file, and what it does to the disk and to
  the store that was opened last;
* `Sound` — the invariant: nobody holds the file and its tables are in some phase, or the
  store does and its key belongs to the padlock that is bound;
* `Sound.step` and `Sound.run` — every event keeps it, and so does every run.
-/

/-! ### Events -/

/-- What happens to a database file. -/
inductive Event where
  /-- A store is opened, or the attempt fails. -/
  | openStore (config : Config) (fresh : Fresh) (padlock : Bytes)
  /-- The process dies after some writes of opening a store. -/
  | dieOpening (config : Config) (fresh : Fresh) (padlock : Bytes) (writes : Nat)
  /-- A call on the store that was opened last. -/
  | call (call : Call)
  /-- That store is closed. -/
  | close
  /-- The encrypted records are removed. -/
  | cryptReset (config : Config)
  /-- The process dies after some writes of that. -/
  | dieResetting (config : Config) (writes : Nat)

/-- The choices and the padlock of an attempt to open. -/
def Event.opens : Event → Opens
  | .openStore _ fresh padlock => [(fresh, padlock)]
  | .dieOpening _ fresh padlock _ => [(fresh, padlock)]
  | _ => []

/-- A disk, and the store that was opened last. -/
structure World where
  disk : Disk
  store : Option (Handle × Store)

namespace World

/-- The world after an attempt to open a store. -/
def opened (w : World) : EStateM.Result VaultError Disk (Handle × Store) → World
  | .ok opened disk => ⟨disk, some opened⟩
  | .error _ disk => ⟨disk, w.store⟩

/-- The world after the file has been opened, if it could be, and the process has died. -/
def died (w : World) (die : Handle → Disk → Disk) : EStateM.Result StorageError Disk Handle → World
  | .ok h disk => ⟨die h disk, none⟩
  | .error _ disk => ⟨disk, w.store⟩

/-- The world after an action on the store that was opened last. -/
def used {α : Type} (w : World) (action : Store → Action Durable α) : World :=
  match w.store with
  | some (h, store) => ⟨(outcome (Disk.through h (action store)) w.disk).2, w.store⟩
  | none => w

/-- What an event does to a world, with the database file at a path. -/
def step (path : String) (w : World) : Event → World
  | .openStore config fresh padlock => w.opened (Database.openStore config path fresh padlock w.disk)
  | .dieOpening config fresh padlock writes =>
    w.died (fun h disk => disk.dieDuring writes h (Padlock.unlock fresh padlock))
      (Disk.openFile config.openOptions path w.disk)
  | .call call => w.used call.run
  | .close => w.used Store.close
  | .cryptReset config => ⟨(outcome (Database.cryptReset config path) w.disk).2, w.store⟩
  | .dieResetting config writes =>
    w.died (fun h disk => disk.dieDuring writes h Padlock.reset)
      (Disk.openFile { config.openOptions with createIfMissing := false } path w.disk)

/-- What events do to a world, one after another. -/
def run (path : String) (events : List Event) (w : World) : World :=
  events.foldl (step path) w

/-- The tables of the database file. -/
def tables (path : String) (w : World) : Option Tables :=
  match w.disk.filePlace path with
  | .ok place =>
    match w.disk.files.node? place with
    | some (.database ts _) => some ts
    | some (.foreign []) => some ∅
    | _ => none
  | .error _ => none

end World

/-! ### The invariant -/

/-- Who holds the file, and what is in it. -/
inductive Live (opens : Opens) (path : String) (place : Place) (w : World) : Prop where
  /-- The file is empty and has not been opened yet. -/
  | empty (hfile : w.disk.FileAt path place (.foreign [])) (hstore : w.store = none)
  /-- Nobody holds the file. -/
  | free {ts : Tables} (hfile : w.disk.FileAt path place (.database ts none))
    (hphase : Phase opens ts)
  /-- The store holds the file, and its key belongs to the padlock that is bound. -/
  | held {ts : Tables} {h : Handle} {master : Crypto.MasterKey} {fresh : Fresh} {padlock : Bytes}
    (hfile : w.disk.FileAt path place (.database ts (some h.number)))
    (hstore : w.store = some (h, Store.ofMaster master)) (hbound : Bound opens fresh padlock ts)
    (hkey : KeyOf opens (lockStateOf fresh padlock) master)

/-- The store that was opened last has a handle on the file, and the file is in order. -/
structure Sound (opens : Opens) (path : String) (place : Place) (w : World) : Prop where
  handle : ∀ h store, w.store = some (h, store) → h.place = place
  live : Live opens path place w

variable {opens : Opens} {path : String} {place : Place} {w : World} {ts : Tables}

/-- A file that is opened is free and then held by the new handle, or held by another and
    left alone. -/
theorem Sound.openFile (hw : Sound opens path place w) :
    (∃ (ts : Tables) (h : Handle) (d : Disk), (∀ options, Disk.openFile options path w.disk = .ok h d) ∧
      h.place = place ∧ d.FileAt path place (.database ts (some h.number)) ∧ Phase opens ts) ∨
    ∀ options, Disk.openFile options path w.disk = .error (.locked path) w.disk := by
  cases hw.live with
  | empty hfile hstore =>
    exact .inl ⟨∅, _, _, hfile.openFile_empty, rfl, hfile.hold ∅, .empty opens⟩
  | free hfile hphase => exact .inl ⟨_, _, _, hfile.openFile_free, rfl, hfile.hold _, hphase⟩
  | held hfile hstore hbound hkey => exact .inr hfile.openFile_held

/-- Unlocking an open file gives a store or closes the file, and leaves the tables of
    unlocking in it. -/
theorem withBackend_outcome (fresh : Fresh) (padlock : Bytes) {d : Durable} (hd : view d = some ts) :
    (∃ master after, (unlockEffect fresh padlock ts).1 = .ok master ∧
      Store.withBackend fresh padlock d = .ok (Store.ofMaster master) after ∧
      view after = some (unlockEffect fresh padlock ts).2) ∨
    ∃ e after, (unlockEffect fresh padlock ts).1 = .error e ∧
      Store.withBackend fresh padlock d = .error e after ∧ after.isOpen = false ∧
      after.tables = (unlockEffect fresh padlock ts).2 := by
  obtain ⟨after, hrun, hview⟩ := (unlock_runs fresh padlock ts).outcome (fun h => h) hd
  unfold Store.withBackend
  rw [hrun]
  cases hanswer : (unlockEffect fresh padlock ts).1 with
  | ok master => exact .inl ⟨master, after, rfl, rfl, hview⟩
  | error e =>
    exact .inr ⟨e, { after with isOpen := false }, rfl, rfl, rfl, (Durable.view_eq_some hview).2⟩

/-- Opening a store unlocks the file that has been opened. -/
theorem openStore_eq {config : Config} {fresh : Fresh} {padlock : Bytes} {d d' : Disk} {h : Handle}
    (hfile : Disk.openFile config.openOptions path d = .ok h d')
    {r : Except VaultError Store} {after : Durable}
    (hrun : Store.withBackend fresh padlock (d'.connection h) = answering r after) :
    Database.openStore config path fresh padlock d =
      answering (r.map fun s => (h, s)) (d'.settle h (d'.connection h) after) := by
  rw [Database.openStore, bind_of_ok (ofStorage_of_ok hfile)]
  have hthrough := Disk.through_of_answering hrun
  cases r with
  | ok store => exact bind_of_ok hthrough _
  | error e => exact bind_of_error hthrough _

/-- A file that cannot be opened gives no store. -/
theorem openStore_error {config : Config} {fresh : Fresh} {padlock : Bytes} {d d' : Disk}
    {e : StorageError} (hfile : Disk.openFile config.openOptions path d = .error e d') :
    Database.openStore config path fresh padlock d = .error (.ofStorage e) d' :=
  bind_of_error (ofStorage_of_error hfile) _

/-- Opening a store unlocks the file that has been opened, and the new handle holds it then, or it
    has been let go of if it could not be unlocked. -/
theorem openStore_outcome {config : Config} {d d' : Disk} {h : Handle}
    (hfile : Disk.openFile config.openOptions path d = .ok h d')
    (hd : d'.FileAt path h.place (.database ts (some h.number))) (fresh : Fresh) (padlock : Bytes) :
    (∃ master d₁, (unlockEffect fresh padlock ts).1 = .ok master ∧
      Database.openStore config path fresh padlock d = .ok (h, Store.ofMaster master) d₁ ∧
      d₁.FileAt path h.place (.database (unlockEffect fresh padlock ts).2 (some h.number))) ∨
    ∃ e d₁, (unlockEffect fresh padlock ts).1 = .error e ∧
      Database.openStore config path fresh padlock d = .error e d₁ ∧
      d₁.FileAt path h.place (.database (unlockEffect fresh padlock ts).2 none) := by
  rcases withBackend_outcome fresh padlock hd.view_connection with
    ⟨master, after, hanswer, hrun, hafter⟩ | ⟨e, after, hanswer, hrun, hclosed, htables⟩
  · have hsettle := hd.settle after
    obtain ⟨hopened, htables⟩ := Durable.view_eq_some hafter
    rw [hopened, htables, if_pos rfl] at hsettle
    exact .inl ⟨master, _, hanswer,
      openStore_eq hfile (r := .ok (Store.ofMaster master)) hrun, hsettle⟩
  · have hsettle := hd.settle after
    rw [hclosed, htables, if_neg (by simp)] at hsettle
    exact .inr ⟨e, _, hanswer, openStore_eq hfile (r := .error e) hrun, hsettle⟩

/-- Opening a store keeps the invariant. -/
theorem Sound.openStore (hw : Sound opens path place w) {config : Config} {fresh : Fresh}
    {padlock : Bytes} (hopen : (fresh, padlock) ∈ opens) :
    Sound opens path place (w.step path (.openStore config fresh padlock)) := by
  rcases hw.openFile with ⟨ts, h, d, hfile, rfl, hd, hphase⟩ | hlocked
  · obtain ⟨hphase', hkey⟩ := hphase.unlock hopen
    rcases openStore_outcome (hfile config.openOptions) hd fresh padlock with
      ⟨master, d₁, hanswer, hstore, hd₁⟩ | ⟨e, d₁, -, hstore, hd₁⟩
    · obtain ⟨f, p, hbound, hmaster⟩ := hkey master hanswer
      rw [World.step, hstore]
      refine ⟨?_, .held hd₁ rfl hbound hmaster⟩
      rintro _ _ ⟨⟩
      rfl
    · -- The padlock did not fit, and the file has been let go of.
      rw [World.step, hstore]
      exact ⟨hw.handle, .free hd₁ hphase'⟩
  · rw [World.step, openStore_error (hlocked _)]
    exact hw

/-- A process that dies while it has the file open keeps the invariant, if what it leaves is
    in some phase. -/
theorem Sound.died {ε α : Type} {x : EStateM ε (Mortal Durable) α} (hw : Sound opens path place w)
    (hx : ∀ ts, Phase opens ts → ∃ us r cut, Runs x ts r us cut ∧
      ∀ vs, vs = us ∨ vs ∈ cut → Phase opens vs) (options : OpenOptions) (writes : Nat) :
    Sound opens path place
      (w.died (fun h disk => disk.dieDuring writes h x) (Disk.openFile options path w.disk)) := by
  rcases hw.openFile with ⟨ts, h, d, hfile, rfl, hd, hphase⟩ | hlocked
  · obtain ⟨us, r, cut, hruns, hcut⟩ := hx ts hphase
    obtain ⟨vs, hvs, hplace⟩ := hd.dieDuring hruns writes
    rw [hfile]
    exact ⟨by rintro _ _ ⟨⟩, .free hvs (hcut vs hplace)⟩
  · rw [hlocked]
    exact hw

/-- An action on the store keeps the invariant, if it keeps the padlock bound and the file
    open, or closes the file and leaves the tables alone. -/
theorem Sound.used {α : Type} {action : Store → Action Durable α} (hw : Sound opens path place w)
    (haction : ∀ {d : Durable} {ts : Tables} {fresh : Fresh} {padlock : Bytes}
      {master : Crypto.MasterKey}, view d = some ts → Bound opens fresh padlock ts →
      KeyOf opens (lockStateOf fresh padlock) master →
      Bound opens fresh padlock (outcome (action (Store.ofMaster master)) d).2.tables) :
    Sound opens path place (w.used action) := by
  unfold World.used
  split
  · next h store hstore =>
    have hplace := hw.handle h store hstore
    refine ⟨fun h' store' hlast => hw.handle h' store' hlast, ?_⟩
    cases hw.live with
    | empty hfile hnone =>
      rw [hnone] at hstore
      cases hstore
    | @free ts hfile hphase =>
      -- The store that was opened last has been closed.
      subst hplace
      have hunused : (outcome (Disk.through h (action store)) w.disk).2.FileAt path h.place
          (.database ts none) := by
        rw [hfile.through_closed]
        exact hfile
      exact .free hunused hphase
    | @held ts _ master fresh padlock hfile hlast hbound hkey =>
      obtain ⟨rfl, rfl⟩ : h = _ ∧ store = Store.ofMaster master := by
        rw [hstore] at hlast
        exact Prod.mk.inj (Option.some.inj hlast)
      subst hplace
      have hview : view (⟨h.path, ts, true⟩ : Durable) = some ts := rfl
      have hbound' := haction hview hbound hkey
      -- The action may have closed the file, which is then free.
      have hthrough := hfile.through (action (Store.ofMaster master)) rfl
      split at hthrough
      · exact .held hthrough hstore hbound' hkey
      · exact .free hthrough (.bound _ _ hbound')
  · exact hw

/-- The crypt reset removes what is encrypted from the file that has been opened, and gives
    the file up. -/
theorem cryptReset_eq {config : Config} {d d' : Disk} {h : Handle}
    (hfile : Disk.openFile { config.openOptions with createIfMissing := false } path d = .ok h d')
    {r : Except VaultError Nat} {after : Durable}
    (hrun : Padlock.reset (d'.connection h) = answering r after) :
    Database.cryptReset config path d =
      answering r ((d'.settle h (d'.connection h) after).release h) := by
  refine (bind_of_ok (ofStorage_of_ok hfile) _).trans ?_
  simp only [Disk.through_of_answering hrun]
  cases r <;> rfl

/-- A file that cannot be opened is not reset. -/
theorem cryptReset_error {config : Config} {d d' : Disk} {e : StorageError}
    (hfile : Disk.openFile { config.openOptions with createIfMissing := false } path d = .error e d') :
    Database.cryptReset config path d = .error (.ofStorage e) d' :=
  bind_of_error (ofStorage_of_error hfile) _

/-- The crypt reset keeps the invariant. -/
theorem Sound.cryptReset (hw : Sound opens path place w) (config : Config) :
    Sound opens path place (w.step path (.cryptReset config)) := by
  rcases hw.openFile with ⟨ts, h, d, hfile, rfl, hd, hphase⟩ | hlocked
  · obtain ⟨after, hrun, hafter⟩ := (reset_runs ts).outcome (fun h => h) hd.view_connection
    obtain ⟨hopened, htables⟩ := Durable.view_eq_some hafter
    have hsettle := hd.settle after
    rw [hopened, htables, if_pos rfl] at hsettle
    rw [World.step, outcome_of_answering (cryptReset_eq (hfile _) hrun)]
    exact ⟨hw.handle, .free hsettle.release (hphase.of_reset (.inl rfl))⟩
  · rw [World.step, outcome, cryptReset_error (hlocked _)]
    exact hw

/-! ### Runs -/

/-- **Every event keeps the invariant.** -/
theorem Sound.step (hw : Sound opens path place w) (event : Event) (hevent : event.opens ⊆ opens) :
    Sound opens path place (w.step path event) := by
  cases event with
  | openStore config fresh padlock => exact hw.openStore (hevent (List.mem_singleton_self _))
  | dieOpening config fresh padlock writes =>
    refine hw.died (fun ts hphase => ⟨_, _, _, unlock_runs fresh padlock ts, ?_⟩) _ writes
    rintro vs (rfl | hcut)
    · exact (hphase.unlock (hevent (List.mem_singleton_self _))).1
    · exact hphase.of_unlockCuts hcut
  | call call =>
    refine hw.used fun {d ts fresh padlock master} hview hbound hkey => ?_
    obtain ⟨after, hrun, hafter⟩ :=
      (Call.runs (Store.ofMaster master) ts call).outcome (fun h => h) hview
    rw [outcome_of_answering hrun, (Durable.view_eq_some hafter).2]
    exact hbound.call hkey call
  | close =>
    refine hw.used fun {d ts fresh padlock master} hview hbound _ => ?_
    rw [← (Durable.view_eq_some hview).2] at hbound
    exact hbound
  | cryptReset config => exact hw.cryptReset config
  | dieResetting config writes =>
    exact hw.died (fun ts hphase => ⟨_, _, _, reset_runs ts, fun vs => hphase.of_reset⟩) _ writes

/-- **A run keeps the invariant.** -/
theorem Sound.run (hw : Sound opens path place w) (events : List Event)
    (hevents : events.flatMap Event.opens ⊆ opens) :
    Sound opens path place (w.run path events) := by
  induction events generalizing w with
  | nil => exact hw
  | cons event rest ih =>
    rw [List.flatMap_cons, List.append_subset] at hevents
    exact ih (hw.step event hevents.1) hevents.2

end TableVault
