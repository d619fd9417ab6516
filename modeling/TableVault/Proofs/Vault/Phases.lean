import TableVault.Proofs.Crypto.Feedback
import TableVault.Proofs.Padlock.Recovery
import TableVault.Proofs.Store.Writes

namespace TableVault

open Storage Record Padlock

/-!
# The phases of a vault

What the system table says and what is encrypted go together: a vault is always in one of
three phases.

* `KeyOf` — the keys that the padlocks of some opens open a lock record to;
* `Encrypted` — the records that are the encoding of a value under a key;
* `Bound` and `Phase` — a reset has been started, or nothing is encrypted and no padlock
  is bound, or one is and everything encrypted belongs to it;
* `Phase.unlock`, `Phase.of_unlockCuts`, `Phase.of_reset` and `Bound.call` — unlocking,
  the crypt reset and calls lead from phase to phase, also if they are cut short.
-/

/-! ### Phases -/

/-- The random choices and the padlock of every attempt to open a vault. -/
abbrev Opens := List (Fresh × Bytes)

/-- A lock record opens to a key with a padlock of some open. -/
def KeyOf (opens : Opens) (state : Cbor.LockState) (master : Crypto.MasterKey) : Prop :=
  ∃ fresh padlock, (fresh, padlock) ∈ opens ∧ openLock state padlock = .ok master

/-- A record is the encoding of a value under a key, and decrypts to it. -/
def Encrypted (master : Crypto.MasterKey) (record : Bytes) : Prop :=
  ∃ v ciphertext, (Encoder.ofMaster master).encode (.value v) true = .ok record ∧
    split record = .ok (some (.encrypted, ciphertext)) ∧
    (Encoder.ofMaster master).payload .encrypted ciphertext = v.encode

/-- No record at all is flagged as encrypted. -/
def AllPlain (ts : Tables) : Prop :=
  ∀ table key record, ts.find? table key = some record → isEncrypted record = false

/-- The padlock of an open is bound: its lock record is all there is in the system table,
    and everything encrypted is so under a key that this record opens to. -/
structure Bound (opens : Opens) (fresh : Fresh) (padlock : Bytes) (ts : Tables) : Prop where
  opened : (fresh, padlock) ∈ opens
  system : ts[systemTable]? = some ((∅ : Records).insert lockKey (lockRecordOf fresh padlock))
  records : ∀ table key record, ts.find? table key = some record → isEncrypted record = true →
    ∃ master, KeyOf opens (lockStateOf fresh padlock) master ∧ Encrypted master record

/-- The phases of a vault. -/
inductive Phase (opens : Opens) (ts : Tables) : Prop where
  /-- A reset has been started and not finished. -/
  | marked (hpending : pending ts = .ok true)
  /-- No padlock is bound, and nothing is encrypted. -/
  | bare (hsystem : ts[systemTable]? = none) (hplain : AllPlain ts)
  /-- A padlock is bound. -/
  | bound (fresh : Fresh) (padlock : Bytes) (hbound : Bound opens fresh padlock ts)

variable {opens : Opens} {ts vs : Tables} {fresh : Fresh} {padlock : Bytes}

/-- An empty vault has no padlock and no records. -/
theorem Phase.empty (opens : Opens) : Phase opens ∅ := by
  refine .bare Std.ExtTreeMap.getElem?_empty fun table key record h => ?_
  rw [Tables.find?_empty] at h
  cases h

/-! ### Leading on -/

/-- Nothing encrypted is left of a purge. -/
theorem purged_allPlain (ts : Tables) : AllPlain ts.purged := by
  intro table key record h
  rw [Tables.find?_purged] at h
  split at h
  · cases h
  · simpa using (Option.filter_eq_some_iff.mp h).2

/-- A padlock that is bound where there was none has nothing encrypted. -/
theorem Bound.of_bare (hopen : (fresh, padlock) ∈ opens) (hsystem : ts[systemTable]? = none)
    (hplain : AllPlain ts) : Bound opens fresh padlock (locked ts fresh padlock) := by
  refine ⟨hopen, locked_systemTable hsystem fresh padlock, fun table key record h hrecord => ?_⟩
  rw [locked, Tables.find?_put] at h
  split at h
  · rw [← Option.some.inj h, lockRecordOf, isEncrypted_frame] at hrecord
    cases hrecord
  · rw [hplain table key record h] at hrecord
    cases hrecord

/-- The key of an open is one that the padlock of an open leads to. -/
theorem Bound.keyOf (h : Bound opens fresh padlock ts) :
    KeyOf opens (lockStateOf fresh padlock) fresh.master :=
  ⟨fresh, padlock, h.opened, openLock_lockStateOf fresh padlock⟩

/-- Where there is no padlock and nothing is encrypted, the one that is unlocked with is
    bound. -/
theorem Bound.of_openEffect (hopen : (fresh, padlock) ∈ opens) (hsystem : ts[systemTable]? = none)
    (hplain : AllPlain ts) :
    Bound opens fresh padlock (openEffect fresh padlock ts).2 ∧
      (openEffect fresh padlock ts).1 = .ok fresh.master := by
  rw [openEffect_bare hsystem]
  exact ⟨.of_bare hopen hsystem hplain, rfl⟩

/-- **Unlocking leads from phase to phase.** If it returns a key, a padlock is bound whose
    lock record opens to it. -/
theorem Phase.unlock (h : Phase opens ts) (hopen : (fresh, padlock) ∈ opens) :
    Phase opens (unlockEffect fresh padlock ts).2 ∧
      ∀ master, (unlockEffect fresh padlock ts).1 = .ok master →
        ∃ f p, Bound opens f p (unlockEffect fresh padlock ts).2 ∧
          KeyOf opens (lockStateOf f p) master := by
  -- What is left to be shown if a padlock is bound and its own key returned.
  have hbound : ∀ {effect : Except VaultError Crypto.MasterKey × Tables},
      Bound opens fresh padlock effect.2 ∧ effect.1 = .ok fresh.master →
      Phase opens effect.2 ∧ ∀ master, effect.1 = .ok master →
        ∃ f p, Bound opens f p effect.2 ∧ KeyOf opens (lockStateOf f p) master := by
    rintro effect ⟨hbound, hanswer⟩
    refine ⟨.bound fresh padlock hbound, fun master hmaster => ⟨fresh, padlock, hbound, ?_⟩⟩
    rw [hanswer] at hmaster
    rw [← Except.ok.inj hmaster]
    exact hbound.keyOf
  cases h with
  | marked hpending =>
    rw [unlockEffect, hpending]
    exact hbound (Bound.of_openEffect hopen (purged_systemTable ts) (purged_allPlain ts))
  | bare hsystem hplain =>
    rw [unlockEffect, pending_bare hsystem]
    exact hbound (Bound.of_openEffect hopen hsystem hplain)
  | bound f p hlocked =>
    -- The lock record is opened, whoever has made it, and nothing is written.
    have heffect : unlockEffect fresh padlock ts = (openLock (lockStateOf f p) padlock, ts) := by
      rw [unlockEffect, pending_of_lockOnly hlocked.system]
      show openEffect fresh padlock ts = _
      rw [openEffect, lockOf_of_lockOnly hlocked.system, readRecord_lockRecordOf]
    rw [heffect]
    exact ⟨.bound f p hlocked, fun master hmaster => ⟨f, p, hlocked, fresh, padlock, hopen, hmaster⟩⟩

/-- Unlocking leads from phase to phase also if it is cut short. -/
theorem Phase.of_unlockCuts (h : Phase opens ts) (hvs : vs ∈ unlockCuts ts) : Phase opens vs := by
  rcases hvs with rfl | ⟨hpending, rfl | ⟨front, hfront, rfl⟩⟩
  · exact h
  · exact .bare (purged_systemTable ts) (purged_allPlain ts)
  · have hsystem : systemTable ∉ front := ts.systemTable_notMem hfront.subset
    exact .marked (by rw [pending_purgeAmong hsystem, hpending])

/-- The crypt reset leads from phase to phase, also if it is cut short. -/
theorem Phase.of_reset (h : Phase opens ts) (hvs : vs = (Padlock.marked ts).purged ∨
    vs ∈ {ts} ∪ {us | ∃ front, front <+: ts.names ∧ us = (Padlock.marked ts).purgeAmong front}) :
    Phase opens vs := by
  rcases hvs with rfl | rfl | ⟨front, hfront, rfl⟩
  · exact .bare (purged_systemTable _) (purged_allPlain _)
  · exact h
  · have hsystem : systemTable ∉ front := ts.systemTable_notMem hfront.subset
    exact .marked (by rw [pending_purgeAmong hsystem, pending_marked])

/-- **Calls keep a padlock bound.** What they encrypt is encrypted under the key of the
    store. -/
theorem Bound.call {master : Crypto.MasterKey} (h : Bound opens fresh padlock ts)
    (hmaster : KeyOf opens (lockStateOf fresh padlock) master) (call : Call) :
    Bound opens fresh padlock (call.effect (Store.ofMaster master) ts).2 := by
  have hsystem := Call.effect_system (.ofMaster master) ts call
  -- What is encrypted was there before, or the store has just encrypted it.
  refine ⟨h.opened, hsystem.trans h.system, fun table key record hrecord hflag => ?_⟩
  rcases Call.writtenBy (.ofMaster master) ts call table key record hrecord with
    hold | ⟨content, encrypt, hencode⟩
  · exact h.records table key record hold hflag
  · obtain ⟨rfl, v, rfl⟩ := Encoder.encrypted_of_encode hencode hflag
    obtain ⟨ciphertext, hsplit, hpayload⟩ := Encoder.decrypts _ hencode
    exact ⟨master, hmaster, v, ciphertext, hencode, hsplit, hpayload⟩

end TableVault
