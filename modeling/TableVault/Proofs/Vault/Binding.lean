import TableVault.Proofs.Storage.Opening
import TableVault.Proofs.Vault.Lifetime

namespace TableVault

open Storage Record Padlock

/-!
# A padlock stays bound

* `BoundTo` — the lock record of some tables is that of a padlock, and no reset is pending.
  Unlocking with any padlock then opens the lock record and changes nothing;
* `Use` — what is done on a disk: stores are opened by any paths, called and closed through any
  handles. There is no reset;
* `SystemAt` — the invariant: a path leads to a database with a given system table. Every use
  keeps it (`SystemAt.step`), and so does every run (`SystemAt.run`);
* `padlock_stays_bound` — the padlock that a database is opened with first opens it ever after,
  and gives the same key; another one does not.
-/

/-! ### Lock records -/

/-- A padlock is bound in some tables: no reset is pending, and the lock record is the one that an
    open with the padlock has made. -/
structure BoundTo (fresh : Fresh) (padlock : Bytes) (ts : Tables) : Prop where
  pending : pending ts = .ok false
  lock : lockOf ts = .ok (some (lockStateOf fresh padlock))

namespace BoundTo

variable {fresh : Fresh} {padlock : Bytes} {ts us : Tables}

/-- Only the system table tells which padlock is bound. -/
theorem congr (h : BoundTo fresh padlock ts) (hsystem : us[systemTable]? = ts[systemTable]?) :
    BoundTo fresh padlock us := by
  have hfind : ∀ key, us.find? systemTable key = ts.find? systemTable key := fun key => by
    rw [Tables.find?_eq, Tables.find?_eq, hsystem]
  refine ⟨?_, ?_⟩
  · rw [Padlock.pending, hfind]
    exact h.pending
  · rw [lockOf, hfind]
    exact h.lock

/-- Where a padlock is bound, unlocking opens its lock record and changes nothing. -/
theorem unlockEffect_eq (h : BoundTo fresh padlock ts) (fresh' : Fresh) (other : Bytes) :
    unlockEffect fresh' other ts = (openLock (lockStateOf fresh padlock) other, ts) := by
  rw [unlockEffect, h.pending]
  show openEffect fresh' other ts = _
  rw [openEffect, h.lock]

/-- Whoever unlocks an open file where a padlock is bound leaves its tables as they are. -/
theorem tables_withBackend (h : BoundTo fresh padlock ts) {d : Durable} (hd : view d = some ts)
    (fresh' : Fresh) (other : Bytes) :
    (outcome (Store.withBackend fresh' other) d).2.tables = ts := by
  have heffect := h.unlockEffect_eq fresh' other
  rcases withBackend_outcome fresh' other hd with
    ⟨master, after, -, hrun, hafter⟩ | ⟨e, after, -, hrun, -, htables⟩
  · rw [heffect] at hafter
    rw [outcome, hrun]
    exact (Durable.view_eq_some hafter).2
  · rw [heffect] at htables
    rw [outcome, hrun]
    exact htables

end BoundTo

/-- Where there is no lock record and no reset is pending, unlocking binds the padlock. -/
theorem boundTo_unlockEffect {ts : Tables} (hpending : pending ts = .ok false)
    (hlock : lockOf ts = .ok none) (fresh : Fresh) (padlock : Bytes) :
    (unlockEffect fresh padlock ts).1 = .ok fresh.master ∧
      BoundTo fresh padlock (unlockEffect fresh padlock ts).2 := by
  have heffect : unlockEffect fresh padlock ts = (.ok fresh.master, locked ts fresh padlock) := by
    rw [unlockEffect, hpending]
    show openEffect fresh padlock ts = _
    rw [openEffect, hlock]
  rw [heffect]
  -- The lock record is put beside whatever else the system table holds.
  have hkey : resetKey ≠ lockKey := by decide
  refine ⟨rfl, ?_, ?_⟩
  · rw [Padlock.pending, locked, Tables.find?_put, if_neg fun h => hkey h.2]
    exact hpending
  · rw [lockOf, locked, Tables.find?_put, if_pos ⟨rfl, rfl⟩, readRecord_lockRecordOf]

/-! ### Uses -/

/-- What is done on a disk. A store is a handle with the key of its vault. -/
inductive Use where
  /-- A store is opened, or the attempt fails. -/
  | openStore (config : Config) (path : String) (fresh : Fresh) (padlock : Bytes)
  /-- A call on a store. -/
  | call (h : Handle) (master : Crypto.MasterKey) (asked : Call)
  /-- A store is closed. -/
  | close (h : Handle) (master : Crypto.MasterKey)

/-- The disk after a use. -/
def Use.step (d : Disk) : Use → Disk
  | .openStore config path fresh padlock =>
    (outcome (Database.openStore config path fresh padlock) d).2
  | .call h master asked => (outcome (Disk.through h (asked.run (Store.ofMaster master))) d).2
  | .close h master => (outcome (Disk.through h (Store.ofMaster master).close) d).2

/-- The disk after several uses, one after another. -/
def Use.run (uses : List Use) (d : Disk) : Disk :=
  uses.foldl Use.step d

/-! ### The system table -/

/-- A path leads to a database with a given system table. -/
def SystemAt (path : String) (place : Place) (system : Option Records) (d : Disk) : Prop :=
  ∃ ts holder, d.FileAt path place (.database ts holder) ∧ ts[systemTable]? = system

section System

variable {path : String} {place : Place} {system : Option Records} {d d' : Disk}

/-- A program through any handle keeps a system table that it does not change. -/
theorem SystemAt.through {α : Type} (hd : SystemAt path place system d) (h : Handle)
    {x : Action Durable α} (hx : ∀ s ts, view s = some ts → ts[systemTable]? = system →
      (outcome x s).2.tables[systemTable]? = system) :
    SystemAt path place system (outcome (Disk.through h x) d).2 := by
  obtain ⟨ts, holder, hfile, hsystem⟩ := hd
  obtain ⟨us, holder', hfile', rfl | ⟨s, hs, rfl⟩⟩ := hfile.through_any h x
  · exact ⟨_, _, hfile', hsystem⟩
  · exact ⟨_, _, hfile', hx s ts hs hsystem⟩

/-- Opening a store at any path unlocks the file there, or fails before. -/
theorem outcome_openStore (config : Config) (path : String) (fresh : Fresh) (padlock : Bytes)
    {h : Handle} (hfile : Disk.openFile config.openOptions path d = .ok h d') :
    (outcome (Database.openStore config path fresh padlock) d).2 =
      (outcome (Disk.through h (Store.withBackend fresh padlock)) d').2 := by
  unfold outcome Database.openStore
  rw [bind_of_ok (ofStorage_of_ok hfile)]
  cases hrun : Disk.through h (Store.withBackend fresh padlock) d' with
  | ok store d₁ => rw [bind_of_ok hrun]; rfl
  | error e d₁ => rw [bind_of_error hrun]

-- From here on the system table is one in which a padlock is bound.
variable {fresh : Fresh} {padlock : Bytes}
  (hbound : ∀ ts : Tables, ts[systemTable]? = system → BoundTo fresh padlock ts)

include hbound

/-- Opening a store, of this database or another, keeps the system table. -/
theorem SystemAt.openStore (hd : SystemAt path place system d) (config : Config) (path' : String)
    (fresh' : Fresh) (other : Bytes) :
    SystemAt path place system (Use.step d (.openStore config path' fresh' other)) := by
  obtain ⟨ts, holder, hfile, hsystem⟩ := hd
  obtain ⟨holder', hopened⟩ := hfile.openFile_any config.openOptions path'
  rw [outcome] at hopened
  cases hopen : Disk.openFile config.openOptions path' d with
  | error e d₀ =>
    rw [hopen] at hopened
    rw [Use.step, outcome, openStore_error hopen]
    exact ⟨ts, holder', hopened, hsystem⟩
  | ok h d₀ =>
    rw [hopen] at hopened
    rw [Use.step, outcome_openStore config path' fresh' other hopen]
    refine SystemAt.through ⟨ts, holder', hopened, hsystem⟩ _ fun s vs hs hvs => ?_
    rw [(hbound vs hvs).tables_withBackend hs]
    exact hvs

/-- **Every use keeps the system table.** -/
theorem SystemAt.step (hd : SystemAt path place system d) (use : Use) :
    SystemAt path place system (Use.step d use) := by
  cases use with
  | openStore config path' fresh' other => exact hd.openStore hbound config path' fresh' other
  | call h master asked =>
    refine hd.through h fun s ts hs hsystem => ?_
    obtain ⟨after, hrun, hafter⟩ :=
      (Call.runs (Store.ofMaster master) ts asked).outcome (fun h => h) hs
    rw [outcome_of_answering hrun, (Durable.view_eq_some hafter).2]
    exact (Call.effect_system (.ofMaster master) ts asked).trans hsystem
  | close h master =>
    refine hd.through h fun s ts hs hsystem => ?_
    rw [← (Durable.view_eq_some hs).2] at hsystem
    exact hsystem

/-- **A run keeps the system table.** -/
theorem SystemAt.run (hd : SystemAt path place system d) (uses : List Use) :
    SystemAt path place system (Use.run uses d) := by
  induction uses generalizing d with
  | nil => exact hd
  | cons use rest ih => exact ih (hd.step hbound use)

end System

/-! ### Opening again -/

section Reopening

variable {config : Config} {path : String} {place : Place} {d d' : Disk} {h : Handle} {ts : Tables}
  {fresh : Fresh} {padlock : Bytes}

/-- Opening a store on a database that nobody holds opens the lock record with the padlock that is
    given, and leaves the tables as they are. -/
theorem BoundTo.openStore (hbound : BoundTo fresh padlock ts)
    (hd : d.FileAt path place (.database ts none)) (config : Config) (fresh' : Fresh)
    (other : Bytes) :
    (∃ master h d', openLock (lockStateOf fresh padlock) other = .ok master ∧
      Database.openStore config path fresh' other d = .ok (h, Store.ofMaster master) d' ∧
      d'.FileAt path place (.database ts (some h.number))) ∨
    ∃ e d', openLock (lockStateOf fresh padlock) other = .error e ∧
      Database.openStore config path fresh' other d = .error e d' ∧
      d'.FileAt path place (.database ts none) := by
  have heffect := hbound.unlockEffect_eq fresh' other
  have hheld : (d.hold path place ts).2.FileAt path (d.hold path place ts).1.place
    (.database ts (some (d.hold path place ts).1.number)) := hd.hold ts
  rcases openStore_outcome (hd.openFile_free config.openOptions) hheld fresh' other with
    ⟨master, d₁, hanswer, hstore, hd₁⟩ | ⟨e, d₁, hanswer, hstore, hd₁⟩
  · rw [heffect] at hanswer hd₁
    exact .inl ⟨master, _, d₁, hanswer, hstore, hd₁⟩
  · rw [heffect] at hanswer hd₁
    exact .inr ⟨e, d₁, hanswer, hstore, hd₁⟩

/-- The padlock that is bound opens a database that nobody holds. -/
theorem BoundTo.reopen (hbound : BoundTo fresh padlock ts)
    (hd : d.FileAt path place (.database ts none)) (config : Config) (fresh' : Fresh) :
    ∃ h d', Database.openStore config path fresh' padlock d =
        .ok (h, Store.ofMaster fresh.master) d' ∧
      d'.FileAt path place (.database ts (some h.number)) := by
  have hopen := openLock_lockStateOf fresh padlock
  rcases hbound.openStore hd config fresh' padlock with
    ⟨master, h, d₁, hanswer, hstore, hd₁⟩ | ⟨e, d₁, hanswer, -, -⟩
  · rw [hopen] at hanswer
    obtain rfl : fresh.master = master := Except.ok.inj hanswer
    exact ⟨h, d₁, hstore, hd₁⟩
  · rw [hopen] at hanswer
    cases hanswer

/-- A padlock that the bound one rejects does not open the database, and lets go of the file. -/
theorem BoundTo.refuse (hbound : BoundTo fresh padlock ts)
    (hd : d.FileAt path place (.database ts none)) {other : Bytes}
    (hrejects : Rejects fresh padlock other) (config : Config) (fresh' : Fresh) :
    ∃ d', Database.openStore config path fresh' other d = .error .badPadlock d' ∧
      d'.FileAt path place (.database ts none) := by
  have hopen := openLock_of_rejects hrejects
  rcases hbound.openStore hd config fresh' other with
    ⟨master, h, d₁, hanswer, -, -⟩ | ⟨e, d₁, hanswer, hstore, hd₁⟩
  · rw [hopen] at hanswer
    cases hanswer
  · rw [hopen] at hanswer
    obtain rfl : VaultError.badPadlock = e := Except.error.inj hanswer
    exact ⟨d₁, hstore, hd₁⟩

/-- A file that has been opened is found at its path, held by the new handle. -/
theorem fileAt_of_openFile (hfile : Disk.openFile config.openOptions path d = .ok h d')
    (hholds : d'.HoldsAt h ts) : d'.FileAt path h.place (.database ts (some h.number)) := by
  obtain ⟨d₀, -, ⟨e, herror⟩ | ⟨other, us, hother, hvacant, hok⟩⟩ :=
    Disk.openFile_eq config.openOptions path d
  · rw [herror] at hfile
    cases hfile
  · rw [hok] at hfile
    cases hfile
    exact ⟨(hvacant.hold hother).place_eq, hholds.2⟩

/-- **A padlock stays bound.** A database file that has been opened has neither a lock record nor
    a pending reset. Then the first padlock that it is unlocked with is bound, and whatever is
    done afterwards, with this file or others, through whichever handles and short of a reset:
    the system table stays what it was after the first open; whenever nobody holds the file, the
    padlock opens it, by any path that leads there, and gives the same key; and a padlock under
    which the sealed key fails authentication does not, and leaves the tables as they are and the
    file to nobody. -/
theorem padlock_stays_bound (hfile : Disk.openFile config.openOptions path d = .ok h d')
    (hholds : d'.HoldsAt h ts) (hpending : pending ts = .ok false) (hlock : lockOf ts = .ok none)
    (fresh : Fresh) (padlock : Bytes) :
    ∃ d₁ us, Database.openStore config path fresh padlock d =
        .ok (h, Store.ofMaster fresh.master) d₁ ∧
      d₁.FileAt path h.place (.database us (some h.number)) ∧ ∀ uses : List Use,
        (∃ vs holder, (Use.run uses d₁).FileAt path h.place (.database vs holder) ∧
          vs[systemTable]? = us[systemTable]?) ∧
        ∀ path' vs config' fresh', (Use.run uses d₁).FileAt path' h.place (.database vs none) →
          (∃ h' d₂, Database.openStore config' path' fresh' padlock (Use.run uses d₁) =
              .ok (h', Store.ofMaster fresh.master) d₂ ∧
            d₂.FileAt path' h.place (.database vs (some h'.number))) ∧
          ∀ other, Rejects fresh padlock other →
            ∃ d₂, Database.openStore config' path' fresh' other (Use.run uses d₁) =
                .error .badPadlock d₂ ∧
              d₂.FileAt path' h.place (.database vs none) := by
  obtain ⟨hanswer, hbound⟩ := boundTo_unlockEffect hpending hlock fresh padlock
  rcases openStore_outcome hfile (fileAt_of_openFile hfile hholds) fresh padlock with
    ⟨master, d₁, hmaster, hstore, hd₁⟩ | ⟨e, d₁, herror, -, -⟩
  · rw [hanswer] at hmaster
    obtain rfl : fresh.master = master := Except.ok.inj hmaster
    refine ⟨d₁, _, hstore, hd₁, fun uses => ?_⟩
    have hrun : SystemAt path h.place _ (Use.run uses d₁) :=
      SystemAt.run (fun vs hvs => hbound.congr hvs) ⟨_, _, hd₁, rfl⟩ uses
    refine ⟨hrun, fun path' vs config' fresh' hfree => ?_⟩
    -- Both paths lead to the same database.
    obtain ⟨ws, holder, hws, hsystem⟩ := hrun
    have hsame := hws.node_eq
    rw [hfree.node_eq] at hsame
    obtain rfl : vs = ws := by cases hsame; rfl
    have hbound' := hbound.congr hsystem
    exact ⟨hbound'.reopen hfree config' fresh', fun other hrejects =>
      hbound'.refuse hfree hrejects config' fresh'⟩
  · rw [hanswer] at herror
    cases herror

/-- A file that is empty at first is bound to the padlock that it is opened with. Once it has been
    closed, that padlock opens it again whatever is drawn, and another one does not. -/
theorem padlock_stays_bound_closed :
    let start := Disk.empty.put ["vault"] (.foreign [])
    let master := (Fresh.ofSeed [1]).master
    ∃ h d₁, Database.openStore {} "vault" (.ofSeed [1]) [7] start =
        .ok (h, Store.ofMaster master) d₁ ∧
      (∃ h' d₂, Database.openStore {} "vault" (.ofSeed [2]) [7] (Use.run [.close h master] d₁) =
        .ok (h', Store.ofMaster master) d₂) ∧
      ∃ d₂, Database.openStore {} "vault" (.ofSeed [3]) [8] (Use.run [.close h master] d₁) =
        .error .badPadlock d₂ := by
  intro start master
  have hstart : start.FileAt "vault" ["vault"] (.foreign []) := ⟨rfl, rfl⟩
  have hfile : Disk.openFile (Config.openOptions {}) "vault" start = _ := hstart.openFile_empty _
  have hholds : (start.hold "vault" ["vault"] ∅).2.HoldsAt (start.hold "vault" ["vault"] ∅).1 ∅ :=
    start.hold_holdsAt "vault" (by simp) ∅
  have hbare : (∅ : Tables)[systemTable]? = none := Std.ExtTreeMap.getElem?_empty
  obtain ⟨d₁, us, hopen, hd₁, hbound⟩ := padlock_stays_bound hfile hholds (pending_bare hbare)
    (lockOf_bare hbare) (.ofSeed [1]) [7]
  -- Closing lets go of the file.
  have hclosed := hd₁.through (Store.ofMaster master).close rfl
  obtain ⟨-, hreopen⟩ := hbound [.close _ master]
  obtain ⟨⟨h', d₂, hagain, -⟩, -⟩ := hreopen "vault" us {} (.ofSeed [2]) hclosed
  obtain ⟨-, hrefuse⟩ := hreopen "vault" us {} (.ofSeed [3]) hclosed
  obtain ⟨d₃, hother, -⟩ := hrefuse [8] (by decide +kernel)
  exact ⟨_, d₁, hopen, ⟨h', d₂, hagain⟩, d₃, hother⟩

end Reopening

end TableVault
