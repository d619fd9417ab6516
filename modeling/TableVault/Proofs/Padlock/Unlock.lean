import TableVault.Proofs.Padlock.Purge

namespace TableVault.Padlock

open Storage Record

/-!
# What unlocking and resetting do

* `pending` and `lockOf` — what the system records of some tables say;
* `unlockEffect` — what unlocking answers and leaves, as a function of the tables;
* `unlock_runs` — on every lawful backend it does that. A process that dies meanwhile has
  purged a few tables, or everything, or has done nothing;
* `reset_runs` — the crypt reset: the marker, and then the purge.
-/

variable {σ : Type} [Backend σ] [LawfulBackend σ] {ts : Tables}

/-! ### System records -/

/-- Whether some tables say that a reset has been started and not finished. -/
def pending (ts : Tables) : Except VaultError Bool :=
  (readRecord .bool resetKey (ts.find? systemTable resetKey)).map (·.getD false)

/-- The lock record of some tables. -/
def lockOf (ts : Tables) : Except VaultError (Option Cbor.LockState) :=
  readRecord .lockState lockKey (ts.find? systemTable lockKey)

/-- The marker of a reset, as it stands in the system table. -/
def marker : Bytes := frame .plain (Cbor.toCbor .bool true)

/-- The tables with the marker of a reset. -/
def marked (ts : Tables) : Tables := ts.put systemTable resetKey marker

/-- The tables with the lock record of a padlock. -/
def locked (ts : Tables) (fresh : Fresh) (padlock : Bytes) : Tables :=
  ts.put systemTable lockKey (lockRecordOf fresh padlock)

/-- A record of the system table is found there. -/
theorem find?_systemTable {records : Records} (h : ts[systemTable]? = some records) (key : String) :
    ts.find? systemTable key = records[key]? := by
  rw [Tables.find?_eq, h, Option.getD_some]

/-- Without a system table there is no record in it. -/
theorem find?_bare (h : ts[systemTable]? = none) (key : String) :
    ts.find? systemTable key = none := by
  rw [Tables.find?_eq, h, Option.getD_none]
  exact Std.ExtTreeMap.getElem?_empty

/-- Without a system table no reset has been started. -/
theorem pending_bare (h : ts[systemTable]? = none) : pending ts = .ok false := by
  rw [pending, find?_bare h]
  rfl

/-- No reset has been started if there is no marker. -/
theorem pending_of_unmarked (h : ts.find? systemTable resetKey = none) : pending ts = .ok false := by
  rw [pending, h]
  rfl

/-- Without a system table there is no lock record. -/
theorem lockOf_bare (h : ts[systemTable]? = none) : lockOf ts = .ok none := by
  rw [lockOf, find?_bare h]
  rfl

/-- No reset has been started if there is nothing but a lock record. -/
theorem pending_of_lockOnly {record : Bytes}
    (h : ts[systemTable]? = some ((∅ : Records).insert lockKey record)) :
    pending ts = .ok false := by
  have hkey : lockKey ≠ resetKey := by decide
  rw [pending, find?_systemTable h, Std.ExtTreeMap.getElem?_insert, if_neg (by simpa using hkey),
    Std.ExtTreeMap.getElem?_empty]
  rfl

/-- The lock record is read if there is nothing else. -/
theorem lockOf_of_lockOnly {record : Bytes}
    (h : ts[systemTable]? = some ((∅ : Records).insert lockKey record)) :
    lockOf ts = readRecord .lockState lockKey (some record) := by
  rw [lockOf, find?_systemTable h, Std.ExtTreeMap.getElem?_insert_self]

/-- A lock record that is not empty is there, whatever it says. -/
theorem lockOf_ne_none {b : UInt8} {rest : Bytes}
    (h : ts.find? systemTable lockKey = some (b :: rest)) : lockOf ts ≠ .ok none := by
  intro hnone
  rw [lockOf, h, readRecord] at hnone
  split at hnone
  · cases hnone
  · next hsplit =>
    -- Only the empty record has no parts.
    rw [Record.split] at hsplit
    cases hflag : Flag.ofByte b <;> rw [hflag] at hsplit <;> cases hsplit
  · next payload _ =>
    cases hread : decodeAs .lockState payload <;> rw [hread] at hnone <;> cases hnone
  · cases hnone

/-- Reading a system record. -/
theorem readSystem_runs (s : Cbor.Shape) (key : String) (ts : Tables) :
    Runs (σ := σ) (readSystem s key) ts (readRecord s key (ts.find? systemTable key)) ts ∅ :=
  (LawfulBackend.get_runs ts systemTable key).ofStorage.bind_of_look (Runs.ofExcept _ ts)

/-- Looking for the marker. -/
theorem resetPending_runs (ts : Tables) :
    Runs (σ := σ) resetPending ts (pending ts) ts ∅ :=
  (readSystem_runs .bool resetKey ts).map _

/-- Leaving the marker. -/
theorem markReset_runs (ts : Tables) :
    Runs (σ := σ) markReset ts (.ok ()) (marked ts) {ts} :=
  (LawfulBackend.set_runs ts systemTable resetKey marker).ofStorage

/-- Binding a padlock. -/
theorem establish_runs (fresh : Fresh) (padlock : Bytes) (ts : Tables) :
    Runs (σ := σ) (establish fresh padlock) ts (.ok fresh.master) (locked ts fresh padlock) {ts} :=
  (LawfulBackend.set_runs ts systemTable lockKey (lockRecordOf fresh padlock)).ofStorage.map
    fun _ => fresh.master

/-! ### The crypt reset -/

/-- **The crypt reset** leaves the marker, and then removes what is encrypted. -/
theorem reset_runs (ts : Tables) :
    Runs (σ := σ) reset ts (.ok ((marked ts).countEncrypted ts.names)) (marked ts).purged
      ({ts} ∪ {us | ∃ front, front <+: ts.names ∧ us = (marked ts).purgeAmong front}) := by
  have hpurge := purge_runs (σ := σ) (marked ts)
  rw [show (marked ts).names = ts.names from ts.names_put_systemTable _ _] at hpurge
  exact (markReset_runs ts).bind hpurge

/-! ### Unlocking -/

/-- The tables that a lock record is looked for in: a reset that was cut short is finished
    first. -/
def resumed (ts : Tables) (isPending : Bool) : Tables :=
  if isPending then ts.purged else ts

/-- What unlocking answers and leaves once a reset that was cut short has been finished. -/
def openEffect (fresh : Fresh) (padlock : Bytes) (ts : Tables) :
    Except VaultError Crypto.MasterKey × Tables :=
  match lockOf ts with
  | .ok (some state) => (openLock state padlock, ts)
  | .ok none => (.ok fresh.master, locked ts fresh padlock)
  | .error e => (.error e, ts)

/-- What unlocking answers and leaves. -/
def unlockEffect (fresh : Fresh) (padlock : Bytes) (ts : Tables) :
    Except VaultError Crypto.MasterKey × Tables :=
  match pending ts with
  | .ok isPending => openEffect fresh padlock (resumed ts isPending)
  | .error e => (.error e, ts)

/-- Opening the lock record leaves the tables as they are, and at most one is made. -/
theorem openEffect_tables (fresh : Fresh) (padlock : Bytes) (ts : Tables) :
    (openEffect fresh padlock ts).2 = ts ∨ (openEffect fresh padlock ts).2 = locked ts fresh padlock := by
  unfold openEffect
  split
  · exact .inl rfl
  · exact .inr rfl
  · exact .inl rfl

/-- Without a marker only the lock record is opened, or one is made. -/
theorem unlockEffect_of_unmarked (h : ts.find? systemTable resetKey = none) (fresh : Fresh)
    (padlock : Bytes) : unlockEffect fresh padlock ts = openEffect fresh padlock ts := by
  rw [unlockEffect, pending_of_unmarked h]
  rfl

/-- Where a padlock has been bound and no reset been started, unlocking changes nothing, whether it
    succeeds or not. -/
theorem unlockEffect_of_locked (hpending : pending ts ≠ .ok true) (hlock : lockOf ts ≠ .ok none)
    (fresh : Fresh) (padlock : Bytes) : (unlockEffect fresh padlock ts).2 = ts := by
  unfold unlockEffect
  cases hp : pending ts with
  | error e => rfl
  | ok isPending =>
    cases isPending with
    | true => exact absurd hp hpending
    | false =>
      show (openEffect fresh padlock ts).2 = ts
      unfold openEffect
      cases hl : lockOf ts with
      | error e => rfl
      | ok found =>
        cases found with
        | some state => rfl
        | none => exact absurd hl hlock

/-- The tables that are left when a process dies while it unlocks them. -/
def unlockCuts (ts : Tables) : Set Tables :=
  {us | us = ts ∨ pending ts = .ok true ∧
    (us = ts.purged ∨ ∃ front, front <+: ts.names ∧ us = ts.purgeAmong front)}

/-- Opening the lock record, or making one, from any tables on. -/
theorem openOrEstablish_runs (fresh : Fresh) (padlock : Bytes) (ts : Tables)
    {k : Option Cbor.LockState → Action σ Crypto.MasterKey}
    (hsome : ∀ state, k (some state) = Action.ofExcept (openLock state padlock))
    (hnone : k none = establish fresh padlock) :
    Runs (do k (← readSystem .lockState lockKey)) ts (openEffect fresh padlock ts).1
      (openEffect fresh padlock ts).2 {ts} := by
  have hlock := readSystem_runs (σ := σ) .lockState lockKey ts
  unfold openEffect lockOf
  cases hstate : readRecord .lockState lockKey (ts.find? systemTable lockKey) with
  | error e =>
    rw [hstate] at hlock
    exact hlock.bind_error.mono (Set.empty_subset _)
  | ok found =>
    rw [hstate] at hlock
    cases found with
    | none =>
      refine hlock.bind_of_look ?_
      rw [hnone]
      exact establish_runs fresh padlock ts
    | some state =>
      refine hlock.bind_of_look ?_
      rw [hsome]
      exact (Runs.ofExcept _ ts).mono (Set.empty_subset _)

/-- **Unlocking** finishes a reset that was cut short, and then opens the lock record or
    makes one. -/
theorem unlock_runs (fresh : Fresh) (padlock : Bytes) (ts : Tables) :
    Runs (σ := σ) (unlock fresh padlock) ts (unlockEffect fresh padlock ts).1
      (unlockEffect fresh padlock ts).2 (unlockCuts ts) := by
  have hpending := resetPending_runs (σ := σ) ts
  unfold unlockEffect
  cases hp : pending ts with
  | error e =>
    rw [hp] at hpending
    exact hpending.bind_error.mono (Set.empty_subset _)
  | ok isPending =>
    rw [hp] at hpending
    refine hpending.bind_of_look ?_
    cases isPending with
    | false =>
      refine (openOrEstablish_runs fresh padlock ts (fun _ => rfl) rfl).mono ?_
      rintro us rfl
      exact .inl rfl
    | true =>
      -- The process may die in the purge, or between the purge and the lock record.
      refine ((purge_runs ts).bind (openOrEstablish_runs fresh padlock ts.purged ?_ ?_)).mono
        (Set.union_subset ?_ ?_)
      · exact fun state => rfl
      · rfl
      · rintro us hcut
        exact .inr ⟨hp, .inr hcut⟩
      · rintro us rfl
        exact .inr ⟨hp, .inl rfl⟩

end TableVault.Padlock
