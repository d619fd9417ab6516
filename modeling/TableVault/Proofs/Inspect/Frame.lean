import TableVault.CommandLine.Run
import TableVault.Proofs.Inspect.Findings
import TableVault.Proofs.Padlock.Reset
import TableVault.Proofs.Vault.Holders

namespace TableVault

open Storage Padlock CommandLine

/-!
# Inspections leave no trace

A command that inspects a database opens it for writing, like any other, and unlocks it, which
may write. Nothing else that it does is seen on the disk, whatever it is asked for and whether it
succeeds or fails.

* `openedAndClosed` — the disk after a database has been opened and closed, and
  `openedAndClosed_eq` — the tables of unlocking are left in the file, and nobody holds it;
* `PlainKept` — what is plain has been kept, which unlocking does (`PlainKept.unlock`);
* `through_of_look` — a program that leaves the tables alone leaves the disk alone;
* `outcome_inspect` and `exists_look` — an inspection opens the database and closes it, and every
  command that inspects is one;
* `inspections_leave_no_trace` — the three commands, on every kind of file.
-/

variable {file path : String} {d : Disk} {h : Handle} {place : Place} {ts us : Tables} {fresh : Fresh}

/-! ### Opening and closing -/

/-- The disk after a store has been opened and closed, if it could be opened. -/
def openedAndClosed (file : String) (fresh : Fresh) (padlock : Bytes) (d : Disk) : Disk :=
  match Database.openStore {} file fresh padlock d with
  | .ok (h, store) d => (outcome (Disk.through h store.close) d).2
  | .error _ d => d

/-- Closing a store gives up its handle. -/
theorem outcome_close (h : Handle) (store : Store) (d : Disk) :
    (outcome (Disk.through h store.close) d).2 = d.release h := by
  rw [release_eq, Disk.outcome_through, Disk.outcome_through]
  rfl

namespace Storage.Disk.FileAt

variable (hd : d.FileAt path h.place (.database ts (some h.number)))

include hd

/-- A database that is settled is put back. -/
theorem settle_eq (after : Durable) :
    d.settle h (d.connection h) after =
      d.put h.place (.database after.tables (if after.isOpen then some h.number else none)) := by
  rw [Disk.settle, hd.connection_eq, if_pos rfl]

/-- A database whose handle is given up is put back. -/
theorem release_put : d.release h = d.put h.place (.database ts none) := by
  rw [release_eq, outcome_through, hd.settle_eq, hd.connection_eq]
  rfl

/-- A program that leaves the tables alone leaves the disk alone. -/
theorem through_of_look {α : Type} {x : Action Durable α} {r : Except VaultError α}
    {cut : Set Tables} (hx : Runs x ts r ts cut) : Disk.through h x d = answering r d := by
  obtain ⟨after, hrun, hview⟩ := hx.outcome (fun h => h) hd.view_connection
  obtain ⟨hopen, htables⟩ := Durable.view_eq_some hview
  rw [through_of_answering hrun, hd.settle_eq, hopen, htables, if_pos rfl, Disk.put,
    FileTree.put_of_node? (ne_top_of_filePlace hd.place_eq) hd.node_eq]

end Storage.Disk.FileAt

/-- A file that can be taken hold of with some tables: a database that nobody holds, or an empty
    file, which becomes one. -/
def Unheld (d : Disk) (file : String) (place : Place) (ts : Tables) : Prop :=
  d.FileAt file place (.database ts none) ∨ d.FileAt file place (.foreign []) ∧ ts = ∅

/-- Opening such a file takes hold of it. -/
theorem Unheld.openFile (hfile : Unheld d file place ts) (options : OpenOptions) :
    Disk.openFile options file d = .ok (d.hold file place ts).1 (d.hold file place ts).2 := by
  rcases hfile with hfree | ⟨hempty, rfl⟩
  · exact hfree.openFile_free options
  · exact hempty.openFile_empty options

/-- A database that is put in the place of such a file is found there. -/
theorem Unheld.put (hfile : Unheld d file place ts) (us : Tables) (holder : Option Nat) :
    (d.put place (.database us holder)).FileAt file place (.database us holder) := by
  rcases hfile with hfree | ⟨hempty, -⟩
  · exact hfree.put rfl
  · exact hempty.put rfl

/-- There is such a file. -/
theorem Unheld.fileExists (hfile : Unheld d file place ts) : d.fileExists file = true := by
  rcases hfile with hfree | ⟨hempty, -⟩
  · exact hfree.fileExists
  · exact hempty.fileExists

/-- **Opened and closed.** The tables of unlocking are left in the file, nobody holds it, and no
    other file has changed. -/
theorem openedAndClosed_eq (hfile : Unheld d file place ts) (fresh : Fresh) (padlock : Bytes) :
    openedAndClosed file fresh padlock d =
      ⟨d.files.put place (.database (unlockEffect fresh padlock ts).2 none), d.issued + 1⟩ := by
  have hput := hfile.put ts (some d.issued)
  have hheld : (d.hold file place ts).2.FileAt file (d.hold file place ts).1.place
      (.database ts (some (d.hold file place ts).1.number)) := ⟨hput.place_eq, hput.node_eq⟩
  unfold openedAndClosed
  rcases withBackend_outcome fresh padlock hheld.view_connection with
    ⟨master, after, -, hrun, hview⟩ | ⟨e, after, -, hrun, hclosed, htables⟩
  · obtain ⟨hopen, htables⟩ := Durable.view_eq_some hview
    have hsettled := hheld.settle after
    rw [hopen, htables, if_pos rfl] at hsettled
    rw [openStore_eq (hfile.openFile _) (r := .ok (Store.ofMaster master)) hrun]
    show (outcome (Disk.through _ (Store.ofMaster master).close) _).2 = _
    rw [outcome_close, hsettled.release_put, hheld.settle_eq]
    -- What stood in the file between opening and closing is written over.
    simp only [Disk.put, Disk.hold, FileTree.put_put]
  · rw [openStore_eq (hfile.openFile _) (r := .error e) hrun]
    show Disk.settle _ _ _ _ = _
    rw [hheld.settle_eq, hclosed, htables]
    simp only [Disk.put, Disk.hold, FileTree.put_put, Bool.false_eq_true, if_false]

/-! ### What is kept -/

/-- What is plain in some tables has been kept: the same tables are listed, and outside the system
    table every record that is not encrypted is as it was. -/
structure PlainKept (ts us : Tables) : Prop where
  names : us.names = ts.names
  records : ∀ table key, table ≠ systemTable → (table, key) ∉ ts.encryptedPlaces →
    us.find? table key = ts.find? table key

/-- Opening the lock record, or making one, keeps what is plain. -/
theorem PlainKept.openEffect (h : PlainKept ts us) (fresh : Fresh) (padlock : Bytes) :
    PlainKept ts (openEffect fresh padlock us).2 := by
  rcases openEffect_tables fresh padlock us with hsame | hlocked
  · rw [hsame]
    exact h
  · rw [hlocked]
    refine ⟨(us.names_put_systemTable _ _).trans h.names, fun table key htable hplace => ?_⟩
    rw [locked, Tables.find?_put, if_neg fun hkey => htable hkey.1]
    exact h.records table key htable hplace

/-- Unlocking keeps what is plain, even if it has to finish a reset. -/
theorem PlainKept.unlock (hclear : ts.Clear) (fresh : Fresh) (padlock : Bytes) :
    PlainKept ts (unlockEffect fresh padlock ts).2 := by
  have hrefl : PlainKept ts ts := ⟨rfl, fun _ _ _ _ => rfl⟩
  have hpurged : PlainKept ts ts.purged :=
    ⟨hclear.names_purged, fun _ _ htable hplace => hclear.find?_purged_of_notMem htable hplace⟩
  unfold unlockEffect
  cases pending ts with
  | error e => exact hrefl
  | ok isPending =>
    cases isPending with
    | true => exact hpurged.openEffect fresh padlock
    | false => exact hrefl.openEffect fresh padlock

/-! ### Inspections -/

section Inspections

variable {α : Type} {look : Store → Action Durable α} {padlock : String} {command : Command}

/-- Whether a missing file would be created does not matter for one that is there. -/
theorem openStore_of_exists (hexists : d.fileExists file = true) (config other : Config)
    (fresh : Fresh) (padlock : Bytes) :
    Database.openStore config file fresh padlock d = Database.openStore other file fresh padlock d := by
  have hopen : Action.ofStorage (Disk.openFile config.openOptions file) d =
      Action.ofStorage (Disk.openFile other.openOptions file) d := by
    rw [Action.ofStorage, Action.ofStorage, Disk.openFile_of_exists hexists,
      Disk.openFile_of_exists hexists]
  unfold Database.openStore
  simp only [bind, EStateM.bind, hopen]

/-- An inspection of a file that cannot be opened does nothing. -/
theorem outcome_inspect_of_error {e : VaultError}
    (hstore : Database.openStore (Config.withCreateIfMissing {} false) file fresh
      (Utf8.encode padlock) d = .error e d) :
    (outcome (inspect file padlock fresh look) d).2 = d := by
  rw [outcome, inspect, bind_of_error hstore]

/-- An inspection that leaves the tables alone opens the database and closes it. -/
theorem outcome_inspect (hlook : ∀ s ts, ∃ r, Runs (look s) ts r ts {ts})
    (hexists : d.fileExists file = true) :
    (outcome (inspect file padlock fresh look) d).2 =
      openedAndClosed file fresh (Utf8.encode padlock) d := by
  have hconfig := openStore_of_exists hexists (Config.withCreateIfMissing {} false) {} fresh
    (Utf8.encode padlock)
  unfold openedAndClosed
  cases hstore : Database.openStore {} file fresh (Utf8.encode padlock) d with
  | error e d' => rw [outcome, inspect, bind_of_error (hconfig.trans hstore)]
  | ok opened d' =>
    obtain ⟨h, store⟩ := opened
    obtain ⟨-, ts, -, hheld⟩ := held_of_openStore hstore
    obtain ⟨r, hr⟩ := hlook store ts
    rw [outcome, inspect, bind_of_ok (hconfig.trans hstore)]
    simp only [hheld.through_of_look hr, outcome_close]
    cases r <;> rfl

/-- The outcome of a command leaves the disk that its action leaves. -/
theorem outcomeOf_disk (x : Action Disk α) (g : α → String) (d : Disk) :
    (outcomeOf (do return g (← x)) d).2 = (outcome x d).2 := by
  unfold outcomeOf outcome
  cases hx : x d with
  | ok a d' => rw [bind_of_ok hx]; rfl
  | error e d' => rw [bind_of_error hx]

/-- The commands that inspect a database. -/
def CommandLine.Command.Inspects : Command → Prop
  | .tables .. | .keys .. | .namespaces .. => True
  | .cryptReset .. | .version => False

/-- A command that inspects a database leaves the disk as its inspection does. -/
theorem exists_look (hcommand : command.Inspects) (file padlock : String) (fresh : Fresh) :
    ∃ (α : Type) (look : Store → Action Durable α), (∀ s ts, ∃ r, Runs (look s) ts r ts {ts}) ∧
      ∀ d, (runInvocation ⟨some file, padlock, command⟩ fresh d).2 =
        (outcome (inspect file padlock fresh look) d).2 := by
  cases command with
  | tables path format =>
    exact ⟨_, _, fun s ts => ⟨_, Inspect.tables_runs s path ts⟩, fun d => outcomeOf_disk _ _ d⟩
  | keys table path format =>
    exact ⟨_, _, fun s ts => ⟨_, Inspect.keys_runs s path table ts⟩, fun d => outcomeOf_disk _ _ d⟩
  | namespaces path all format =>
    exact ⟨_, _, fun s ts => ⟨_, Inspect.namespaces_runs s path all ts⟩,
      fun d => outcomeOf_disk _ _ d⟩
  | cryptReset confirmed => exact hcommand.elim
  | version => exact hcommand.elim

/-- **Inspections leave no trace.** Take any of the commands that inspect a database, with any
    padlock, path, table and format. Where the file is missing, or somebody holds it, the command
    leaves the disk as it is. Any file that is there it leaves as opening a store with this padlock
    and closing it does. If nobody holds the database, then nobody holds it afterwards, no other
    file has changed, and what is plain has been kept, unless tables lie beneath the system table.
    If it has a lock record, where an empty one counts as absent, and no reset has been started,
    then nothing at all has changed. -/
theorem inspections_leave_no_trace (hcommand : command.Inspects) (file padlock : String)
    (fresh : Fresh) (d : Disk) :
    let after := (runInvocation ⟨some file, padlock, command⟩ fresh d).2
    (d.fileExists file = false → after = d) ∧
    (∀ place ts n, d.FileAt file place (.database ts (some n)) → after = d) ∧
    (d.fileExists file = true → after = openedAndClosed file fresh (Utf8.encode padlock) d) ∧
    ∀ place ts, Unheld d file place ts → ∃ us,
      after.FileAt file place (.database us none) ∧
      after.files = d.files.put place (.database us none) ∧
      (ts.Clear → PlainKept ts us) ∧
      ∀ b rest, ts.find? systemTable lockKey = some (b :: rest) → pending ts ≠ .ok true →
        us = ts ∧ after.files = d.files := by
  intro after
  obtain ⟨α, look, hlook, hafter⟩ := exists_look hcommand file padlock fresh
  have hopened : d.fileExists file = true →
      after = openedAndClosed file fresh (Utf8.encode padlock) d :=
    fun hexists => (hafter d).trans (outcome_inspect hlook hexists)
  have hclosed : ∀ e, Database.openStore (Config.withCreateIfMissing {} false) file fresh
      (Utf8.encode padlock) d = .error e d → after = d :=
    fun e hstore => (hafter d).trans (outcome_inspect_of_error hstore)
  refine ⟨fun hmissing => hclosed _ ((missing_of_absent hmissing).openStore _ _ _ rfl),
    fun place ts n hheld => hclosed _ ((lockedOut_of_held hheld).openStore _ _ _), hopened,
    fun place ts hfile => ⟨(unlockEffect fresh (Utf8.encode padlock) ts).2, ?_⟩⟩
  rw [hopened hfile.fileExists, openedAndClosed_eq hfile]
  have hput := hfile.put (unlockEffect fresh (Utf8.encode padlock) ts).2 none
  refine ⟨⟨hput.place_eq, hput.node_eq⟩, rfl, fun hclear => .unlock hclear fresh _, ?_⟩
  intro b rest hlock hpending
  have hsame := unlockEffect_of_locked hpending (lockOf_ne_none hlock) fresh (Utf8.encode padlock)
  rw [hsame]
  refine ⟨rfl, ?_⟩
  rcases hfile with hfree | ⟨-, rfl⟩
  · exact FileTree.put_of_node? (Disk.ne_top_of_filePlace hfree.place_eq) hfree.node_eq
  · -- An empty file has no lock record.
    rw [Tables.find?_empty] at hlock
    cases hlock

end Inspections

/-- A vault with an encrypted record, its padlock bound. The keys of a table are asked for whose
    name is empty, with another padlock, and nothing changes in the file. The same question about a
    file that is not there makes none. -/
theorem inspections_leave_no_trace_bound :
    let fresh : Fresh := .ofSeed [1]
    let ts := locked ((∅ : Tables).put "t" "k" [1, 0x9e]) fresh [7]
    let d := (Disk.empty.put ["vault"] (.foreign [])).put ["vault"] (.database ts none)
    let command : Command := .keys "" (some "/a") "json"
    (runInvocation ⟨some "vault", "other", command⟩ fresh d).2.files = d.files ∧
      (runInvocation ⟨some "absent", "other", command⟩ fresh d).2 = d := by
  intro fresh ts d command
  have hempty : (Disk.empty.put ["vault"] (.foreign [])).FileAt "vault" ["vault"] (.foreign []) :=
    ⟨rfl, rfl⟩
  have hfile : d.FileAt "vault" ["vault"] (.database ts none) := hempty.put rfl
  have hlock : ts.find? systemTable lockKey = some (lockRecordOf fresh [7]) :=
    (Tables.find?_put ..).trans (if_pos ⟨rfl, rfl⟩)
  have hmarker : ts.find? systemTable resetKey = none := by
    refine (Tables.find?_put ..).trans ?_
    rw [if_neg (by decide), Tables.find?_put, if_neg (by decide)]
    exact Tables.find?_empty _ _
  have hpending : pending ts ≠ .ok true := by
    rw [pending_of_unmarked hmarker]
    simp
  have hcommand : command.Inspects := trivial
  obtain ⟨-, -, -, hunheld⟩ := inspections_leave_no_trace hcommand "vault" "other" fresh d
  obtain ⟨us, -, -, -, hbound⟩ := hunheld ["vault"] ts (.inl hfile)
  obtain ⟨hmissing, -⟩ := inspections_leave_no_trace hcommand "absent" "other" fresh d
  exact ⟨(hbound _ _ hlock hpending).2, hmissing (by decide +kernel)⟩

end TableVault
