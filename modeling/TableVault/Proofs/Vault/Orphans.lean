import TableVault.Proofs.Vault.Lifetime

namespace TableVault

open Storage Record Padlock

/-!
# Nothing encrypted is left without its key

* `Kept` — the promise about the tables of a file: a reset is under way, or nothing is
  encrypted, or there is a lock record and everything encrypted belongs to its keys;
* `no_record_is_orphaned` — it holds after every run, with the keys that the padlocks of the
  run open the lock record to;
* `Unforged` — no padlock of the run opens a lock record to another key than was sealed in
  it, and then the sealed key is the only one;
* `second_padlock_orphans` — a run with a padlock that does, since a sealed key does not
  commit to the padlock that it was sealed under.
-/

/-- Everything encrypted in some tables can still be read, or is about to be removed: the
    keys of the lock record are `keys fresh padlock` for the open that has made it. -/
inductive Kept (opens : Opens) (keys : Fresh → Bytes → Crypto.MasterKey → Prop) (ts : Tables) :
    Prop where
  /-- The marker of a reset reads as true. -/
  | resetting (hmarker : readRecord .bool resetKey (ts.find? systemTable resetKey) = .ok (some true))
  /-- There is no lock record, and nothing is encrypted. -/
  | bare (hlock : ts.find? systemTable lockKey = none)
    (hplain : ∀ table key record, table ≠ systemTable → ts.find? table key = some record →
      isEncrypted record = false)
  /-- An open has sealed its key under its padlock, and everything encrypted is so under a
      key of the lock record. -/
  | locked (fresh : Fresh) (padlock : Bytes) (state : Cbor.LockState)
    (hopen : (fresh, padlock) ∈ opens)
    (hlock : readRecord .lockState lockKey (ts.find? systemTable lockKey) = .ok (some state))
    (hversion : state.version = 1) (hsalt : state.salt.length = 16)
    (hsealed : state.sealed =
      (Crypto.Sealer.derive padlock state.salt).sealKey fresh.nonce fresh.master)
    (hopens : openLock state padlock = .ok fresh.master)
    (hrecords : ∀ table key record, ts.find? table key = some record → isEncrypted record = true →
      ∃ master, keys fresh padlock master ∧ Encrypted master record)

/-- The keys that the padlocks of a run open the lock record of an open to. -/
def openedKeys (opens : Opens) (fresh : Fresh) (padlock : Bytes) (master : Crypto.MasterKey) : Prop :=
  KeyOf opens (lockStateOf fresh padlock) master

/-- The key that an open has sealed. -/
def sealedKey (fresh : Fresh) (_ : Bytes) (master : Crypto.MasterKey) : Prop :=
  master = fresh.master

/-- No padlock of a run opens a lock record of the run to another key than was sealed. -/
def Unforged (opens : Opens) : Prop :=
  ∀ fresh padlock, (fresh, padlock) ∈ opens → ∀ master,
    openedKeys opens fresh padlock master → sealedKey fresh padlock master

variable {opens : Opens} {ts : Tables} {path : String} {place : Place}

/-- A run with a single padlock is unforged: a lock record opens to the sealed key. -/
theorem Unforged.of_single {p : Bytes} (h : ∀ open_ ∈ opens, open_.2 = p) : Unforged opens := by
  rintro fresh padlock hopen master ⟨fresh', padlock', hopen', hmaster⟩
  obtain rfl : padlock = p := h _ hopen
  obtain rfl : padlock' = padlock := h _ hopen'
  rw [openLock_lockStateOf] at hmaster
  exact (Except.ok.inj hmaster).symm

/-- With fewer keys less may be encrypted. -/
theorem Kept.mono {keys keys' : Fresh → Bytes → Crypto.MasterKey → Prop}
    (hkeys : ∀ fresh padlock, (fresh, padlock) ∈ opens → ∀ master,
      keys fresh padlock master → keys' fresh padlock master)
    (h : Kept opens keys ts) : Kept opens keys' ts := by
  cases h with
  | resetting hmarker => exact .resetting hmarker
  | bare hlock hplain => exact .bare hlock hplain
  | locked fresh padlock state hopen hlock hversion hsalt hsealed hopens hrecords =>
    refine .locked fresh padlock state hopen hlock hversion hsalt hsealed hopens ?_
    intro table key record hrecord hflag
    obtain ⟨master, hmaster, hencrypted⟩ := hrecords table key record hrecord hflag
    exact ⟨master, hkeys fresh padlock hopen master hmaster, hencrypted⟩

/-- A vault in some phase keeps the promise. -/
theorem Phase.kept (h : Phase opens ts) : Kept opens (openedKeys opens) ts := by
  cases h with
  | marked hpending =>
    refine .resetting ?_
    obtain ⟨found, hmarker, hfound⟩ := ok_of_map hpending
    cases found with
    | none => cases hfound
    | some isPending => exact hmarker.trans (congrArg (fun b => Except.ok (some b)) hfound)
  | bare hsystem hplain =>
    exact .bare (find?_bare hsystem lockKey) fun table key record _ => hplain table key record
  | bound fresh padlock hbound =>
    have hlock : lockOf ts = .ok (some (lockStateOf fresh padlock)) := by
      rw [lockOf_of_lockOnly hbound.system, readRecord_lockRecordOf]
    exact .locked fresh padlock (lockStateOf fresh padlock) hbound.opened hlock rfl
      fresh.salt_length rfl (openLock_lockStateOf fresh padlock) hbound.records

/-- The tables of a file that is in order are in some phase. -/
theorem Sound.tables {w : World} (hw : Sound opens path place w) :
    ∃ ts, w.tables path = some ts ∧ Phase opens ts := by
  unfold World.tables
  cases hw.live with
  | empty hfile hstore =>
    rw [hfile.place_eq]
    simp only [hfile.node_eq]
    exact ⟨∅, rfl, .empty opens⟩
  | free hfile hphase =>
    rw [hfile.place_eq]
    simp only [hfile.node_eq]
    exact ⟨_, rfl, hphase⟩
  | held hfile hstore hbound hkey =>
    rw [hfile.place_eq]
    simp only [hfile.node_eq]
    exact ⟨_, rfl, .bound _ _ hbound⟩

/-- **Nothing encrypted is left without its key.** Take a database file that is empty at
    first, and any run in which it is opened with any padlocks, used, closed and reset, and
    the process dies in front of any write of opening or of a reset. Then everything
    encrypted is so under a key that some padlock of the run opens the lock record to, and
    under the one that was sealed unless a padlock of the run opens it to another. -/
theorem no_record_is_orphaned {d : Disk}
    (hstart : d.FileAt path place (.foreign []) ∨ d.FileAt path place (.database ∅ none))
    (events : List Event) :
    ∃ ts, (World.run path events ⟨d, none⟩).tables path = some ts ∧
      Kept (events.flatMap Event.opens) (openedKeys (events.flatMap Event.opens)) ts ∧
      (Unforged (events.flatMap Event.opens) →
        Kept (events.flatMap Event.opens) sealedKey ts) := by
  have hlive : Live (events.flatMap Event.opens) path place ⟨d, none⟩ := by
    rcases hstart with hempty | hdatabase
    · exact .empty hempty rfl
    · exact .free hdatabase (.empty _)
  have hsound : Sound (events.flatMap Event.opens) path place ⟨d, none⟩ :=
    ⟨fun h store hstore => (by cases hstore), hlive⟩
  obtain ⟨ts, htables, hphase⟩ := (hsound.run events (List.Subset.refl _)).tables
  exact ⟨ts, htables, hphase.kept, fun hunforged => hphase.kept.mono hunforged⟩

/-- A database file that is empty. -/
def emptyFile : Disk := Disk.empty.put ["vault"] (.foreign [])

/-- One padlock alone leaves nothing encrypted without the key it has sealed: here after a
    value has been encrypted, a reset was cut short, and the vault was opened anew. -/
theorem no_record_is_orphaned_alone :
    ∃ ts, (World.run "vault" [.openStore {} (.ofSeed [1]) [7],
        .call (.onStore [] (.cryptSet "t" "k" (.value (.bool true)))), .close,
        .dieResetting {} 1, .openStore {} (.ofSeed [2]) [7]] ⟨emptyFile, none⟩).tables "vault" =
          some ts ∧
      Kept [(.ofSeed [1], [7]), (.ofSeed [2], [7])] sealedKey ts := by
  have hstart : emptyFile.FileAt "vault" ["vault"] (.foreign []) := ⟨rfl, rfl⟩
  obtain ⟨ts, htables, -, hkept⟩ := no_record_is_orphaned (.inl hstart) [
    .openStore {} (.ofSeed [1]) [7],
    .call (.onStore [] (.cryptSet "t" "k" (.value (.bool true)))), .close,
    .dieResetting {} 1, .openStore {} (.ofSeed [2]) [7]]
  refine ⟨ts, htables, hkept (.of_single (p := [7]) ?_)⟩
  rintro _ (_ | ⟨_, _ | ⟨_, ⟨⟩⟩⟩) <;> rfl

/-! ### A second padlock -/

/-- Choices with a master key that a second padlock opens the lock record of a first one to
    another key for: both sealing keys give its ciphertext the same tag. -/
def twoFaced : Fresh where
  master :=
    ⟨[0xfa, 0x3e, 0x7c, 0xba, 0x6c, 0x72, 0x59, 0xf6, 0xe6, 0xae, 0x2e, 0x53, 0xfc, 0xa0, 0x95, 0x4c,
      0x86, 0x8d, 0x47, 0xf2, 0xc6, 0x18, 0x02, 0x0d, 0x17, 0x1d, 0x3d, 0xdf, 0x56, 0x44, 0xc2, 0x93],
      rfl⟩
  salt := List.replicate saltSize 0
  nonce := List.replicate Crypto.nonceSize 0
  salt_length := rfl
  nonce_length := rfl

/-- The vault is opened with the first padlock, and then with the second, and a value is
    encrypted. The second time nothing is drawn. -/
def twoFacedRun : List Event :=
  [.openStore {} twoFaced [0x70], .close, .openStore {} twoFaced [0x71],
    .call (.onStore [] (.cryptSet "t" "k" (.value (.bool true))))]

/-- **A second padlock may orphan.** It opens the lock record to another key, and what is
    encrypted under that is no encoding of any value under the key that was sealed. -/
theorem second_padlock_orphans :
    ∃ ts, (World.run "vault" twoFacedRun ⟨emptyFile, none⟩).tables "vault" = some ts ∧
      ¬ Kept (twoFacedRun.flatMap Event.opens) sealedKey ts := by
  have heval : ((World.run "vault" twoFacedRun ⟨emptyFile, none⟩).tables "vault").map (fun ts =>
      (ts.find? systemTable resetKey, (ts.find? systemTable lockKey).isSome, ts.find? "t" "k")) =
        some (none, true, some [1, 0x9e]) := by decide +kernel
  have hpayload : (Encoder.ofMaster twoFaced.master).payload .encrypted [0x9e] = [0xff] := by
    decide +kernel
  obtain ⟨ts, htables, hts⟩ := Option.map_eq_some_iff.mp heval
  obtain ⟨hmarker, hlock, hrecord⟩ : ts.find? systemTable resetKey = none ∧
      (ts.find? systemTable lockKey).isSome = true ∧ ts.find? "t" "k" = some [1, 0x9e] := by
    simpa only [Prod.mk.injEq] using hts
  refine ⟨ts, htables, fun hkept => ?_⟩
  cases hkept with
  | resetting hreset =>
    rw [hmarker] at hreset
    cases hreset
  | bare hnone hplain =>
    rw [hnone] at hlock
    cases hlock
  | locked fresh padlock state hopen _ _ _ _ _ hrecords =>
    obtain rfl : fresh = twoFaced := by
      rcases hopen with _ | ⟨_, _ | ⟨_, ⟨⟩⟩⟩ <;> rfl
    obtain ⟨master, rfl, v, ciphertext, -, hsplit, hdecrypt⟩ := hrecords "t" "k" _ hrecord rfl
    have hciphertext : ciphertext = [0x9e] := by cases hsplit; rfl
    rw [hciphertext, hpayload] at hdecrypt
    exact v.head?_encode (by rw [← hdecrypt]; rfl)

end TableVault
