import TableVault.Proofs.Padlock.Recovery

namespace TableVault.Padlock

open Storage Record

/-!
# What the stored bytes decide

The outcome of unlocking is told by rules that look at the bytes of the two system records, in a
fixed order. The rules know nothing of the order in which the program goes about its work.

* `Framed` — how the bytes of a system record are taken;
* `Unseals` — what a sealed key opens to, by its parts: nonce, ciphertext and tag;
* `Opens` — what a lock record opens to with a padlock;
* `Judged` and `Unlocks` — what unlocking answers and writes, by the lock record alone and by both
  records;
* `judgement` and `verdict` — the same as functions. Exactly one rule applies (`judged_iff`,
  `unlocks_iff`);
* `unlock_looks` — where the rules let nothing be written, unlocking only looks;
* `unlock_decided` — unlocking follows the rules.
-/

/-! ### The rules -/

/-- How the bytes of a system record are taken: none and empty ones as absent, others by the flag
    in front. -/
inductive Framed (shape : Cbor.Shape) (key : String) :
    Option Bytes → Except VaultError (Option shape.Carrier) → Prop where
  | absent : Framed shape key none (.ok none)
  | empty : Framed shape key (some []) (.ok none)
  | unknownFlag {flag : UInt8} {payload : Bytes} (hflag : 1 < flag) :
    Framed shape key (some (flag :: payload)) (.error (.codec (.unknownFlag flag)))
  | encrypted {payload : Bytes} :
    Framed shape key (some (1 :: payload)) (.error (.invalidLockState (.encryptedRecord key)))
  | unreadable {payload : Bytes} {fault : Cbor.Fault}
    (hread : Cbor.fromCbor? shape payload = .error fault) :
    Framed shape key (some (0 :: payload)) (.error (.codec (.decodingFailed fault fault.message)))
  | plain {payload : Bytes} {content : shape.Carrier}
    (hread : Cbor.fromCbor? shape payload = .ok content) :
    Framed shape key (some (0 :: payload)) (.ok (some content))

/-- What a sealed key opens to under a block cipher. It is a nonce, a ciphertext and a tag. -/
inductive Unseals (image : Bytes → Bytes) : Bytes → Except VaultError Crypto.MasterKey → Prop where
  | tooShort {sealed : Bytes} (hlength : sealed.length < 28) :
    Unseals image sealed (.error (.invalidLockState .sealedTooShort))
  | forged {nonce ciphertext tag : Bytes} (hnonce : nonce.length = 12) (htag : tag.length = 16)
    (hforged : tag ≠ Crypto.Gcm.tag image nonce ciphertext) :
    Unseals image (nonce ++ ciphertext ++ tag) (.error .badPadlock)
  | wrongSize {nonce ciphertext plaintext : Bytes} (hnonce : nonce.length = 12)
    (hplaintext : plaintext = Crypto.Gcm.crypt image nonce ciphertext)
    (hsize : plaintext.length ≠ 32) :
    Unseals image (nonce ++ ciphertext ++ Crypto.Gcm.tag image nonce ciphertext)
      (.error (.invalidKeySize 32 plaintext.length))
  | key {nonce ciphertext : Bytes} {master : Crypto.MasterKey} (hnonce : nonce.length = 12)
    (hmaster : master.bytes = Crypto.Gcm.crypt image nonce ciphertext) :
    Unseals image (nonce ++ ciphertext ++ Crypto.Gcm.tag image nonce ciphertext) (.ok master)

/-- What a lock record opens to with a padlock. -/
inductive Opens (padlock : Bytes) (state : Cbor.LockState) :
    Except VaultError Crypto.MasterKey → Prop where
  | version (hversion : state.version ≠ 1) :
    Opens padlock state (.error (.invalidLockState (.unsupportedVersion state.version)))
  | salt (hversion : state.version = 1) (hsalt : state.salt.length ≠ 16) :
    Opens padlock state (.error (.invalidLockState .saltLength))
  | sealed {r : Except VaultError Crypto.MasterKey} (hversion : state.version = 1)
    (hsalt : state.salt.length = 16)
    (hsealed : Unseals (Crypto.Sealer.derive padlock state.salt).image state.sealed r) :
    Opens padlock state r

/-- What unlocking answers, and the tables that it writes if it writes any, by the lock record. -/
inductive Judged (fresh : Fresh) (padlock : Bytes) (ts : Tables) :
    Except VaultError Crypto.MasterKey → Option Tables → Prop where
  | fault {e : VaultError}
    (hlock : Framed .lockState lockKey (ts.find? systemTable lockKey) (.error e)) :
    Judged fresh padlock ts (.error e) none
  | bind (hlock : Framed .lockState lockKey (ts.find? systemTable lockKey) (.ok none)) :
    Judged fresh padlock ts (.ok fresh.master) (some (locked ts fresh padlock))
  | opened {state : Cbor.LockState} {r : Except VaultError Crypto.MasterKey}
    (hlock : Framed .lockState lockKey (ts.find? systemTable lockKey) (.ok (some state)))
    (hopens : Opens padlock state r) :
    Judged fresh padlock ts r none

/-- What unlocking answers, and the tables that it writes if it writes any. The marker of a reset
    comes first. -/
inductive Unlocks (fresh : Fresh) (padlock : Bytes) (ts : Tables) :
    Except VaultError Crypto.MasterKey → Option Tables → Prop where
  | fault {e : VaultError}
    (hmarker : Framed .bool resetKey (ts.find? systemTable resetKey) (.error e)) :
    Unlocks fresh padlock ts (.error e) none
  | resumed (hmarker : Framed .bool resetKey (ts.find? systemTable resetKey) (.ok (some true))) :
    Unlocks fresh padlock ts (.ok fresh.master) (some (locked ts.purged fresh padlock))
  | judged {marker : Option Bool} {r : Except VaultError Crypto.MasterKey} {us : Option Tables}
    (hmarker : Framed .bool resetKey (ts.find? systemTable resetKey) (.ok marker))
    (hidle : marker ≠ some true) (hjudged : Judged fresh padlock ts r us) :
    Unlocks fresh padlock ts r us

/-! ### Records -/

section Records

variable {shape : Cbor.Shape} {key : String}

/-- A record that is flagged plain is read as its payload is. -/
theorem readRecord_plain (shape : Cbor.Shape) (key : String) (payload : Bytes) :
    readRecord shape key (some (0 :: payload)) =
      match Cbor.fromCbor? shape payload with
      | .ok content => .ok (some content)
      | .error fault => .error (.codec (.decodingFailed fault fault.message)) := by
  show ((decodeAs shape payload).map some).mapError VaultError.codec = _
  rw [decodeAs]
  cases Cbor.fromCbor? shape payload <;> rfl

/-- A record with any other flag than the two that are known is refused. -/
theorem readRecord_unknownFlag (shape : Cbor.Shape) (key : String) {flag : UInt8} (payload : Bytes)
    (h : 1 < flag) :
    readRecord shape key (some (flag :: payload)) = .error (.codec (.unknownFlag flag)) := by
  have hzero : flag ≠ 0 := by rintro rfl; exact absurd h (by decide)
  have hone : flag ≠ 1 := by rintro rfl; exact absurd h (by decide)
  simp only [readRecord, split, Flag.ofByte, if_neg hzero, if_neg hone, Except.map]

/-- **Records are read as the rules take them.** -/
theorem framed_iff {record : Option Bytes} {r : Except VaultError (Option shape.Carrier)} :
    Framed shape key record r ↔ readRecord shape key record = r := by
  constructor
  · intro h
    cases h with
    | absent => rfl
    | empty => rfl
    | unknownFlag hflag => exact readRecord_unknownFlag shape key _ hflag
    | encrypted => rfl
    | unreadable hread => rw [readRecord_plain, hread]
    | plain hread => rw [readRecord_plain, hread]
  · rintro rfl
    match record with
    | none => exact .absent
    | some [] => exact .empty
    | some (flag :: payload) =>
      by_cases hzero : flag = 0
      · subst hzero
        rw [readRecord_plain]
        cases hread : Cbor.fromCbor? shape payload with
        | ok content => exact .plain hread
        | error fault => exact .unreadable hread
      · by_cases hone : flag = 1
        · subst hone
          exact .encrypted
        · have hflag : 1 < flag := by grind
          rw [readRecord_unknownFlag shape key payload hflag]
          exact .unknownFlag hflag

end Records

/-! ### Sealed keys -/

section Sealed

variable {s : Crypto.Sealer}

/-- **Sealed keys are unsealed as the rules tell.** -/
theorem unseals_iff {sealed : Bytes} {r : Except VaultError Crypto.MasterKey} :
    Unseals s.image sealed r ↔ s.unsealKey sealed = r := by
  have htag : ∀ nonce ciphertext, (Crypto.Gcm.tag s.image nonce ciphertext).length = 16 :=
    Crypto.Gcm.length_tag s.length_image
  constructor
  · intro h
    cases h with
    | tooShort hlength => exact if_pos hlength
    | forged hnonce htag hforged => rw [s.unsealKey_append hnonce htag, if_neg hforged]
    | wrongSize hnonce hplaintext hsize =>
      rw [s.unsealKey_append hnonce (htag _ _), if_pos rfl, ← hplaintext]
      exact dif_neg hsize
    | key hnonce hmaster =>
      rw [s.unsealKey_append hnonce (htag _ _), if_pos rfl, ← hmaster,
        Crypto.MasterKey.ofBytes_bytes]
  · rintro rfl
    by_cases hlength : sealed.length < 28
    · have hshort : s.unsealKey sealed = .error (.invalidLockState .sealedTooShort) :=
        if_pos hlength
      rw [hshort]
      exact .tooShort hlength
    · -- Long enough to be cut into its parts.
      obtain ⟨nonce, ciphertext, tag, hnonce, htag', rfl⟩ := Crypto.Sealer.exists_parts hlength
      rw [s.unsealKey_append hnonce htag']
      by_cases hforged : tag = Crypto.Gcm.tag s.image nonce ciphertext
      · rw [if_pos hforged, hforged]
        unfold Crypto.MasterKey.ofBytes
        split
        · next hsize => exact .key hnonce rfl
        · next hsize => exact .wrongSize hnonce rfl hsize
      · rw [if_neg hforged]
        exact .forged hnonce htag' hforged

end Sealed

/-- **Lock records are opened as the rules tell.** -/
theorem opens_iff {padlock : Bytes} {state : Cbor.LockState}
    {r : Except VaultError Crypto.MasterKey} :
    Opens padlock state r ↔ openLock state padlock = r := by
  constructor
  · intro h
    cases h with
    | version hversion => exact if_pos hversion
    | salt hversion hsalt =>
      have hknown : ¬ state.version ≠ lockVersion := not_not.mpr hversion
      rw [openLock, if_neg hknown]
      exact if_pos hsalt
    | sealed hversion hsalt hsealed =>
      have hknown : ¬ state.version ≠ lockVersion := not_not.mpr hversion
      have hlength : ¬ state.salt.length ≠ saltSize := not_not.mpr hsalt
      rw [openLock, if_neg hknown, if_neg hlength]
      exact unseals_iff.mp hsealed
  · rintro rfl
    unfold openLock
    split
    · next hversion => exact .version hversion
    · next hversion =>
      split
      · next hsalt => exact .salt (not_not.mp hversion) hsalt
      · next hsalt => exact .sealed (not_not.mp hversion) (not_not.mp hsalt) (unseals_iff.mpr rfl)

/-! ### Unlocking -/

section Unlocking

variable {fresh : Fresh} {padlock : Bytes} {ts : Tables} {r : Except VaultError Crypto.MasterKey}
  {us : Option Tables}

/-- The answer by the lock record, and what is written. -/
def judgement (fresh : Fresh) (padlock : Bytes) (ts : Tables) :
    Except VaultError Crypto.MasterKey × Option Tables :=
  match lockOf ts with
  | .error e => (.error e, none)
  | .ok none => (.ok fresh.master, some (locked ts fresh padlock))
  | .ok (some state) => (openLock state padlock, none)

/-- The answer by both system records, and what is written. -/
def verdict (fresh : Fresh) (padlock : Bytes) (ts : Tables) :
    Except VaultError Crypto.MasterKey × Option Tables :=
  match readRecord .bool resetKey (ts.find? systemTable resetKey) with
  | .error e => (.error e, none)
  | .ok (some true) => (.ok fresh.master, some (locked ts.purged fresh padlock))
  | .ok _ => judgement fresh padlock ts

/-- **Lock records are judged as the rules tell.** -/
theorem judged_iff : Judged fresh padlock ts r us ↔ judgement fresh padlock ts = (r, us) := by
  constructor
  · intro h
    cases h with
    | fault hlock => rw [judgement, lockOf, framed_iff.mp hlock]
    | bind hlock => rw [judgement, lockOf, framed_iff.mp hlock]
    | opened hlock hopens => rw [judgement, lockOf, framed_iff.mp hlock, ← opens_iff.mp hopens]
  · intro h
    rw [judgement] at h
    cases hlock : lockOf ts with
    | error e =>
      obtain ⟨rfl, rfl⟩ : .error e = r ∧ none = us := by simpa [hlock] using h
      exact .fault (framed_iff.mpr hlock)
    | ok found =>
      cases found with
      | none =>
        obtain ⟨rfl, rfl⟩ : .ok fresh.master = r ∧ some (locked ts fresh padlock) = us := by
          simpa [hlock] using h
        exact .bind (framed_iff.mpr hlock)
      | some state =>
        obtain ⟨hopens, rfl⟩ : openLock state padlock = r ∧ none = us := by simpa [hlock] using h
        exact .opened (framed_iff.mpr hlock) (opens_iff.mpr hopens)

/-- **The rules decide.** -/
theorem unlocks_iff : Unlocks fresh padlock ts r us ↔ verdict fresh padlock ts = (r, us) := by
  constructor
  · intro h
    cases h with
    | fault hmarker => rw [verdict, framed_iff.mp hmarker]
    | resumed hmarker => rw [verdict, framed_iff.mp hmarker]
    | @judged marker _ _ hmarker hidle hjudged =>
      rw [verdict, framed_iff.mp hmarker, ← judged_iff.mp hjudged]
      rcases marker with _ | _ | _
      · rfl
      · rfl
      · exact absurd rfl hidle
  · intro h
    rw [verdict] at h
    cases hmarker : readRecord .bool resetKey (ts.find? systemTable resetKey) with
    | error e =>
      obtain ⟨rfl, rfl⟩ : .error e = r ∧ none = us := by simpa [hmarker] using h
      exact .fault (framed_iff.mpr hmarker)
    | ok marker =>
      rw [hmarker] at h
      rcases marker with _ | _ | _
      · exact .judged (framed_iff.mpr hmarker) (by decide) (judged_iff.mpr h)
      · exact .judged (framed_iff.mpr hmarker) (by decide) (judged_iff.mpr h)
      · obtain ⟨rfl, rfl⟩ := Prod.mk.inj h
        exact .resumed (framed_iff.mpr hmarker)

/-- Without anything that is written the tables stay. -/
theorem openEffect_eq_judgement (fresh : Fresh) (padlock : Bytes) (ts : Tables) :
    openEffect fresh padlock ts =
      ((judgement fresh padlock ts).1, (judgement fresh padlock ts).2.getD ts) := by
  rw [openEffect, judgement]
  cases lockOf ts with
  | error e => rfl
  | ok found => cases found <;> rfl

/-- **Unlocking does what the verdict is.** -/
theorem unlockEffect_eq_verdict (fresh : Fresh) (padlock : Bytes) (ts : Tables) :
    unlockEffect fresh padlock ts =
      ((verdict fresh padlock ts).1, (verdict fresh padlock ts).2.getD ts) := by
  rw [unlockEffect, verdict, pending]
  cases readRecord .bool resetKey (ts.find? systemTable resetKey) with
  | error e => rfl
  | ok marker =>
    rcases marker with _ | _ | _
    · exact openEffect_eq_judgement fresh padlock ts
    · exact openEffect_eq_judgement fresh padlock ts
    · exact openEffect_bare (purged_systemTable ts) fresh padlock

/-- With an error nothing is written. -/
theorem Judged.silent {e : VaultError} (h : Judged fresh padlock ts (.error e) us) : us = none := by
  cases h with
  | fault _ => rfl
  | opened _ _ => rfl

/-- With an error nothing is written. -/
theorem Unlocks.silent {e : VaultError} (h : Unlocks fresh padlock ts (.error e) us) :
    us = none := by
  cases h with
  | fault _ => rfl
  | judged _ _ hjudged => exact hjudged.silent

/-- What is written has a lock record that opens to the answered key. -/
theorem Unlocks.sealed {vs : Tables} (h : Unlocks fresh padlock ts r (some vs)) :
    ∃ key state, r = .ok key ∧
      Framed .lockState lockKey (vs.find? systemTable lockKey) (.ok (some state)) ∧
      Opens padlock state (.ok key) := by
  have hlocked : ∀ us : Tables, Framed .lockState lockKey
      ((locked us fresh padlock).find? systemTable lockKey)
      (.ok (some (lockStateOf fresh padlock))) := by
    intro us
    rw [framed_iff, locked, Tables.find?_put, if_pos ⟨rfl, rfl⟩, readRecord_lockRecordOf]
  have hopens : Opens padlock (lockStateOf fresh padlock) (.ok fresh.master) :=
    opens_iff.mpr (openLock_lockStateOf fresh padlock)
  cases h with
  | resumed _ => exact ⟨_, _, rfl, hlocked _, hopens⟩
  | judged _ _ hjudged =>
    cases hjudged with
    | bind _ => exact ⟨_, _, rfl, hlocked _, hopens⟩

end Unlocking

/-! ### Runs -/

section Runs

variable {σ : Type} [Backend σ] [LawfulBackend σ] {fresh : Fresh} {padlock : Bytes} {ts : Tables}
  {r : Except VaultError Crypto.MasterKey}

/-- Where a lock record decides and nothing is written, nothing but looking is done. -/
theorem open_looks {k : Option Cbor.LockState → Action σ Crypto.MasterKey}
    (hsome : ∀ state, k (some state) = Action.ofExcept (openLock state padlock))
    (h : Judged fresh padlock ts r none) :
    Runs (do k (← readSystem .lockState lockKey)) ts r ts ∅ := by
  have hread := readSystem_runs (σ := σ) .lockState lockKey ts
  cases h with
  | fault hlock =>
    rw [framed_iff.mp hlock] at hread
    exact hread.bind_error
  | opened hlock hopens =>
    rw [framed_iff.mp hlock] at hread
    refine hread.bind_of_look ?_
    rw [hsome, opens_iff.mp hopens]
    exact Runs.ofExcept r ts

/-- Where the rules let nothing be written, unlocking only looks. -/
theorem unlock_looks (h : Unlocks fresh padlock ts r none) :
    Runs (σ := σ) (unlock fresh padlock) ts r ts ∅ := by
  have hpending := resetPending_runs (σ := σ) ts
  cases h with
  | fault hmarker =>
    rw [pending, framed_iff.mp hmarker] at hpending
    exact hpending.bind_error
  | @judged marker _ _ hmarker hidle hjudged =>
    have hfalse : marker.getD false = false := by
      rcases marker with _ | _ | _
      · rfl
      · rfl
      · exact absurd rfl hidle
    rw [pending, framed_iff.mp hmarker, Except.map, hfalse] at hpending
    exact hpending.bind_of_look (open_looks (fun _ => rfl) hjudged)

/-- **The stored bytes decide.** On any open storage, whatever the bytes of the two system records
    are, exactly one rule applies, and unlocking answers and leaves what it says. With an error
    nothing is written, and where nothing is written even a process that could not write would
    come to the same answer. Whatever is written has a lock record that the padlock opens to the
    answered key. -/
theorem unlock_decided (hm : ¬ mortal σ) {s : σ} (hs : view s = some ts) (fresh : Fresh)
    (padlock : Bytes) :
    ∃ r us, (∀ r' us', Unlocks fresh padlock ts r' us' ↔ r' = r ∧ us' = us) ∧
      (outcome (unlock fresh padlock) s).1 = r ∧
      view (outcome (unlock fresh padlock) s).2 = some (us.getD ts) ∧
      (∀ e, r = .error e → us = none) ∧
      (us = none → (outcome (unlock fresh padlock) (⟨s, 0⟩ : Mortal σ)).1 = r) ∧
      (∀ vs, us = some vs → ∃ key state, r = .ok key ∧
        Framed .lockState lockKey (vs.find? systemTable lockKey) (.ok (some state)) ∧
        Opens padlock state (.ok key)) := by
  rcases hverdict : verdict fresh padlock ts with ⟨r, us⟩
  have hrule : Unlocks fresh padlock ts r us := unlocks_iff.mpr hverdict
  obtain ⟨s', hrun, hview⟩ := (unlock_runs fresh padlock ts).outcome hm hs
  rw [unlockEffect_eq_verdict, hverdict] at hrun hview
  rw [outcome_of_answering hrun]
  refine ⟨r, us, fun r' us' => ?_, rfl, hview, ?_, ?_, ?_⟩
  · rw [unlocks_iff, hverdict, Prod.mk.injEq, eq_comm (a := r), eq_comm (a := us)]
  · rintro e rfl
    exact hrule.silent
  · rintro rfl
    obtain ⟨m, hlook, -⟩ := (unlock_looks hrule).outcome_of_look (s := (⟨s, 0⟩ : Mortal σ)) hs
    rw [outcome_of_answering hlook]
  · rintro vs rfl
    exact hrule.sealed

/-- A lock record in memory of a version that is not known, with a salt of no length and nothing
    sealed: the version is what is told, next to a reset that has not been started. -/
theorem unlock_decided_memory :
    let state : Cbor.LockState := { version := 2, salt := [], sealed := [] }
    let ts : Tables := (((∅ : Tables).put systemTable lockKey
      (frame .plain (Cbor.toCbor .lockState state))).put systemTable resetKey [0, 0xf4])
    (outcome (unlock (.ofSeed [1]) [7]) (⟨some ts⟩ : Memory)).1 =
        .error (.invalidLockState (.unsupportedVersion 2)) ∧
      view (outcome (unlock (.ofSeed [1]) [7]) (⟨some ts⟩ : Memory)).2 = some ts := by
  intro state ts
  obtain ⟨r, us, hunique, hanswer, hview, hsilent, -⟩ :=
    unlock_decided (σ := Memory) (s := ⟨some ts⟩) (fun h => h) rfl (.ofSeed [1]) [7]
  have hmarker : Framed .bool resetKey (ts.find? systemTable resetKey) (.ok (some false)) :=
    framed_iff.mpr rfl
  have hlock : Framed .lockState lockKey (ts.find? systemTable lockKey) (.ok (some state)) :=
    framed_iff.mpr (readRecord_lock state (by decide) (by decide))
  have hrule : Unlocks (.ofSeed [1]) [7] ts
      (.error (.invalidLockState (.unsupportedVersion 2))) none :=
    .judged hmarker (by decide) (.opened hlock (.version (by decide)))
  obtain ⟨rfl, rfl⟩ := (hunique _ _).mp hrule
  exact ⟨hanswer, hview⟩

end Runs

end TableVault.Padlock
