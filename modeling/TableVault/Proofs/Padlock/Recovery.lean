import TableVault.Proofs.Padlock.Unlock
import TableVault.Proofs.Storage.Mortal

namespace TableVault.Padlock

open Storage Record

/-!
# A reset that was cut short converges

* `Converging` — the tables on the way from the marker to a fresh lock record: the marker
  is there, or nothing is, or the lock record is;
* `Converging.purgeAmong`, `Converging.of_unlockCuts` — no removal and no attempt to unlock
  that is cut short leads away;
* `Converging.unlock` — an attempt that is not cut short leads to the end;
* `reset_converges` — whatever the state and wherever the reset and the attempts were cut
  short, the vault opens and is as a reset would have left it.
-/

variable {ts us residue : Tables} {padlock : Bytes}

/-! ### The system table -/

/-- The marker is read as true. -/
theorem pending_marked (ts : Tables) : pending (marked ts) = .ok true := by
  rw [pending, marked, Tables.find?_put, if_pos ⟨rfl, rfl⟩, marker, readRecord_marker]
  rfl

/-- Removing encrypted records of listed tables leaves the marker. -/
theorem pending_purgeAmong {names : List String} (h : systemTable ∉ names) :
    pending (ts.purgeAmong names) = pending ts := by
  rw [pending, pending, Tables.find?, Tables.find?, ts.recordsOf_purgeAmong h]

/-- The system table has gone when everything encrypted has been removed. -/
theorem purged_systemTable (ts : Tables) : ts.purged[systemTable]? = none := by
  have hself : inSubtree systemTable systemTable = true := by decide
  rw [Tables.purged, Tables.getElem?_dropSubtree, if_pos hself]

/-- What has been removed already need not be removed again. -/
theorem purged_purgeAmong {names : List String} (h : ∀ name ∈ names, name ∈ ts.names) :
    (ts.purgeAmong names).purged = ts.purged := by
  apply Std.ExtTreeMap.ext_getElem?
  intro name
  rw [Tables.purged, Tables.purged, Tables.names_purgeAmong, Tables.purgeAmong_purgeAmong,
    Tables.getElem?_dropSubtree, Tables.getElem?_dropSubtree, Tables.getElem?_purgeAmong,
    Tables.getElem?_purgeAmong]
  by_cases hname : name ∈ ts.names
  · rw [if_pos (List.mem_append_right names hname), if_pos hname]
  · have hneither : name ∉ names ++ ts.names := by
      rw [List.mem_append, not_or]
      exact ⟨fun hmem => hname (h name hmem), hname⟩
    rw [if_neg hneither, if_neg hname]

/-- The system table has nothing but the lock record once a padlock has been bound. -/
theorem locked_systemTable (h : residue[systemTable]? = none) (fresh : Fresh) (padlock : Bytes) :
    (locked residue fresh padlock)[systemTable]? =
      some ((∅ : Records).insert lockKey (lockRecordOf fresh padlock)) := by
  rw [locked, Tables.getElem?_put, if_pos rfl, Tables.recordsOf_eq, h, Option.getD_none]

/-! ### On the way -/

/-- The tables on the way from the marker of a reset to a fresh lock record, if the reset
    leaves `residue` of the others. -/
inductive Converging (residue : Tables) (padlock : Bytes) : Tables → Prop where
  /-- The marker is there, and what is left to be removed is not in the residue. -/
  | marked {us : Tables} (hpending : pending us = .ok true) (hresidue : us.purged = residue) :
    Converging residue padlock us
  /-- Everything has been removed. -/
  | bare : Converging residue padlock residue
  /-- The padlock has been bound. -/
  | locked (fresh : Fresh) : Converging residue padlock (locked residue fresh padlock)

/-- Removing encrypted records does not lead away from the residue. -/
theorem Converging.purgeAmong {front : List String} (hpending : pending us = .ok true)
    (hresidue : us.purged = residue) (hfront : front <+: us.names) :
    Converging residue padlock (us.purgeAmong front) := by
  have hsystem : systemTable ∉ front := us.systemTable_notMem hfront.subset
  refine .marked ?_ ?_
  · rw [pending_purgeAmong hsystem, hpending]
  · rw [purged_purgeAmong fun name h => hfront.subset h, hresidue]

/-- An attempt to unlock that is cut short does not lead away. -/
theorem Converging.of_unlockCuts (hbare : residue[systemTable]? = none)
    (h : Converging residue padlock us) {vs : Tables} (hvs : vs ∈ unlockCuts us) :
    Converging residue padlock vs := by
  rcases hvs with rfl | ⟨hpending, hcut⟩
  · exact h
  · -- Only the marker makes an attempt write before it makes the lock record.
    cases h with
    | marked hp hresidue =>
      rcases hcut with rfl | ⟨front, hfront, rfl⟩
      · rw [hresidue]
        exact .bare
      · exact .purgeAmong hp hresidue hfront
    | bare =>
      rw [pending_bare hbare] at hpending
      cases hpending
    | locked fresh =>
      rw [pending_of_lockOnly (locked_systemTable hbare _ _)] at hpending
      cases hpending

/-- Without a system table the padlock is bound. -/
theorem openEffect_bare (hbare : residue[systemTable]? = none) (fresh : Fresh) (padlock : Bytes) :
    openEffect fresh padlock residue = (.ok fresh.master, Padlock.locked residue fresh padlock) := by
  rw [openEffect, lockOf_bare hbare]

/-- **The end of the way.** An attempt that is not cut short binds the padlock, or finds it
    bound, and returns the key. -/
theorem Converging.unlock (hbare : residue[systemTable]? = none)
    (h : Converging residue padlock us) (fresh : Fresh) :
    ∃ bound, unlockEffect fresh padlock us =
      (.ok bound.master, Padlock.locked residue bound padlock) := by
  cases h with
  | marked hpending hresidue =>
    refine ⟨fresh, ?_⟩
    rw [unlockEffect, hpending]
    show openEffect fresh padlock us.purged = _
    rw [hresidue, openEffect_bare hbare]
  | bare =>
    refine ⟨fresh, ?_⟩
    rw [unlockEffect, pending_bare hbare]
    exact openEffect_bare hbare fresh padlock
  | locked bound =>
    refine ⟨bound, ?_⟩
    rw [unlockEffect, pending_of_lockOnly (locked_systemTable hbare _ _)]
    show openEffect fresh padlock (Padlock.locked residue bound padlock) = _
    rw [openEffect, lockOf_of_lockOnly (locked_systemTable hbare _ _), readRecord_lockRecordOf]
    exact congrArg (·, _) (openLock_lockStateOf bound padlock)

/-! ### Runs -/

section Runs

variable {σ : Type} [Backend σ] [LawfulBackend σ]

/-- Attempts to unlock with a padlock, each cut short after some writes. -/
def attempts (padlock : Bytes) (cuts : List (Fresh × Nat)) (s : σ) : σ :=
  cuts.foldl (fun s cut => cutShort cut.2 (unlock cut.1 padlock) s) s

/-- A reset that has made its first write is on the way, wherever it is cut short. -/
theorem cutShort_reset_converging (hm : ¬ mortal σ) (padlock : Bytes) (n : Nat) {s : σ}
    (hs : view s = some ts) :
    ∃ us, view (cutShort (n + 1) reset s) = some us ∧
      Converging (marked ts).purged padlock us := by
  obtain ⟨s', hset, hs'⟩ :=
    (LawfulBackend.set_runs ts systemTable resetKey marker).outcome hm hs
  have hcut : cutShort (n + 1) reset s = cutShort n purge s' :=
    cutShort_write_bind (f := fun _ => purge) hset n
  obtain ⟨us, hus, hplace⟩ := (purge_runs (σ := Mortal σ) (marked ts)).cutShort_view n hs'
  refine ⟨us, hcut ▸ hus, ?_⟩
  rcases hplace with rfl | ⟨front, hfront, rfl⟩
  · exact .bare
  · exact .purgeAmong (pending_marked ts) rfl hfront

/-- Attempts that are cut short do not lead away. -/
theorem attempts_converging (hbare : residue[systemTable]? = none) (cuts : List (Fresh × Nat))
    {s : σ} (hs : view s = some us) (h : Converging residue padlock us) :
    ∃ vs, view (attempts padlock cuts s) = some vs ∧ Converging residue padlock vs := by
  induction cuts generalizing s us with
  | nil => exact ⟨us, hs, h⟩
  | cons cut rest ih =>
    obtain ⟨vs, hvs, hplace⟩ :=
      (unlock_runs (σ := Mortal σ) cut.1 padlock us).cutShort_view cut.2 hs
    refine ih hvs ?_
    -- An attempt may also have had breath enough to come to its end.
    rcases hplace with rfl | hcut
    · obtain ⟨bound, heffect⟩ := h.unlock hbare cut.1
      rw [heffect]
      exact .locked bound
    · exact h.of_unlockCuts hbare hcut

/-- **A reset that was cut short converges.** Cut the reset of any open storage short after
    its first write or later, then any number of attempts to unlock anywhere. The next
    attempt succeeds. Then all tables but the system table are as a reset that was not cut
    short would have left them, and the system table has nothing but a lock record, which
    the padlock opens to the key that was returned. -/
theorem reset_converges (hm : ¬ mortal σ) {s : σ} (hs : view s = some ts) (padlock : Bytes)
    (n : Nat) (cuts : List (Fresh × Nat)) (fresh : Fresh) :
    ∃ key us, (outcome (unlock fresh padlock)
        (attempts padlock cuts (cutShort (n + 1) reset s))).1 = .ok key ∧
      view (outcome (unlock fresh padlock)
        (attempts padlock cuts (cutShort (n + 1) reset s))).2 = some us ∧
      (∃ removed vs, (outcome reset s).1 = .ok removed ∧ view (outcome reset s).2 = some vs ∧
        ∀ table, table ≠ systemTable → us[table]? = vs[table]?) ∧
      ∃ record state, us[systemTable]? = some ((∅ : Records).insert lockKey record) ∧
        readRecord .lockState lockKey (some record) = .ok (some state) ∧
        openLock state padlock = .ok key := by
  have hbare := purged_systemTable (marked ts)
  -- First the reset, then the attempts that were cut short, then the last one.
  obtain ⟨us, hus, hus'⟩ := cutShort_reset_converging hm padlock n hs
  obtain ⟨vs, hvs, hvs'⟩ := attempts_converging hbare cuts hus hus'
  obtain ⟨bound, heffect⟩ := hvs'.unlock hbare fresh
  obtain ⟨final, hrun, hfinal⟩ := (unlock_runs fresh padlock vs).outcome hm hvs
  rw [heffect] at hrun hfinal
  obtain ⟨through, hreset, hthrough⟩ := (reset_runs ts).outcome hm hs
  rw [outcome_of_answering hrun, outcome_of_answering hreset]
  refine ⟨bound.master, _, rfl, hfinal, ⟨_, _, rfl, hthrough, ?_⟩, lockRecordOf bound padlock,
    lockStateOf bound padlock, locked_systemTable hbare bound padlock,
    readRecord_lockRecordOf bound padlock, openLock_lockStateOf bound padlock⟩
  intro table htable
  rw [locked, Tables.getElem?_put, if_neg htable]

/-- A vault in memory with a lock record that nothing can read. The reset is cut short after
    its marker, and one attempt after the purge of its table. -/
theorem reset_converges_memory :
    let damaged : Memory := ⟨some (((∅ : Tables).put systemTable lockKey [9]).put "t" "k" [1])⟩
    let left := outcome (unlock (.ofSeed [1]) [])
      (attempts [] [(.ofSeed [2], 0), (.ofSeed [3], 1)] (cutShort 1 reset damaged))
    ∃ key us record, left.1 = .ok key ∧ view left.2 = some us ∧
      us[systemTable]? = some ((∅ : Records).insert lockKey record) := by
  intro damaged left
  obtain ⟨key, us, hanswer, hview, -, record, -, hsystem, -, -⟩ := reset_converges (s := damaged)
    (fun h => h) rfl [] 0 [(.ofSeed [2], 0), (.ofSeed [3], 1)] (.ofSeed [1])
  exact ⟨key, us, record, hanswer, hview, hsystem⟩

end Runs

end TableVault.Padlock
