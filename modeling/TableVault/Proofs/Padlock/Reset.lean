import TableVault.Proofs.Padlock.Recovery

namespace TableVault

open Storage Record

/-!
# A crypt reset removes the encrypted records

* `Tables.encryptedPlaces` — where the encrypted records are: the tables and keys outside the
  system table at which there is a record that begins with the flag;
* `Tables.encard_encryptedPlaces` — the records that a purge counts are these;
* `Tables.Clear` — nothing lies beneath the system table, and a purge leaves all listed tables
  (`Tables.names_purged`);
* `Tables.purged_purged` and `Padlock.purged_marked` — a second purge has nothing to do, and the
  marker is no obstacle;
* `reset_removes_encrypted` — a reset removes the encrypted records and nothing else, and another
  one does nothing.
-/

namespace Storage.Tables

variable (ts : Tables)

/-! ### Places -/

/-- Where the encrypted records are: the tables and keys outside the system table at which there
    is a record that begins with the flag. -/
def encryptedPlaces : Set (String × String) :=
  {place | place.1 ≠ systemTable ∧ ∃ payload, ts.find? place.1 place.2 = some (1 :: payload)}

/-- A record is encrypted if it begins with the flag. -/
theorem any_isEncrypted_iff {found : Option Bytes} :
    found.any isEncrypted = true ↔ ∃ payload, found = some (1 :: payload) := by
  cases found with
  | none => simp
  | some record =>
    cases record with
    | nil => simp [isEncrypted]
    | cons flag payload => simp [isEncrypted, Flag.toByte]

/-- The places of the encrypted records in some tables, one table after another. -/
def listEncrypted (names : List String) : List (String × String) :=
  names.flatMap fun name => (ts.recordsOf name).encryptedKeys.map (name, ·)

/-- The listed places in all tables are those of the encrypted records. -/
theorem mem_listEncrypted {place : String × String} :
    place ∈ ts.listEncrypted ts.names ↔ place ∈ ts.encryptedPlaces := by
  obtain ⟨table, key⟩ := place
  have hplace : (table, key) ∈ ts.listEncrypted ts.names ↔
      table ∈ ts.names ∧ ∃ payload, ts.find? table key = some (1 :: payload) := by
    simp only [listEncrypted, List.mem_flatMap, List.mem_map, Records.mem_encryptedKeys,
      any_isEncrypted_iff, Prod.mk.injEq]
    constructor
    · rintro ⟨_, hname, _, hfound, rfl, rfl⟩
      exact ⟨hname, hfound⟩
    · rintro ⟨hname, hfound⟩
      exact ⟨table, hname, key, hfound, rfl, rfl⟩
  rw [hplace, mem_names]
  constructor
  · rintro ⟨⟨-, hne⟩, hfound⟩
    exact ⟨hne, hfound⟩
  · rintro ⟨hne, payload, hfound⟩
    refine ⟨⟨?_, hne⟩, payload, hfound⟩
    -- A table in which a record is found is there.
    by_contra hmem
    rw [find?_eq, Std.ExtTreeMap.getElem?_eq_none hmem, Option.getD_none,
      Std.ExtTreeMap.getElem?_empty] at hfound
    cases hfound

/-- No place is listed twice. -/
theorem nodup_listEncrypted {names : List String} (hnodup : names.Nodup) :
    (ts.listEncrypted names).Nodup := by
  rw [listEncrypted, List.nodup_flatMap]
  constructor
  · intro name _
    have hkeys : (ts.recordsOf name).encryptedKeys.Nodup :=
      (Records.pairwise_keys _).nodup.filter _
    exact hkeys.map fun _ _ heq => (Prod.mk.inj heq).2
  · refine hnodup.imp fun {a b} hne place ha hb => hne ?_
    obtain ⟨_, -, rfl⟩ := List.mem_map.mp ha
    obtain ⟨_, -, heq⟩ := List.mem_map.mp hb
    exact (Prod.mk.inj heq).1.symm

/-- **What a purge counts.** As many records as there are places of encrypted ones. -/
theorem encard_encryptedPlaces : ts.encryptedPlaces.encard = ts.countEncrypted ts.names := by
  have hset : ts.encryptedPlaces = ↑(ts.listEncrypted ts.names).toFinset := by
    ext place
    rw [List.coe_toFinset, Set.mem_ofPred_eq, mem_listEncrypted]
  rw [hset, Set.encard_coe_eq_coe_finsetCard,
    List.toFinset_card_of_nodup (ts.nodup_listEncrypted ts.pairwise_names.nodup), listEncrypted,
    List.length_flatMap, countEncrypted]
  simp only [List.length_map]

/-! ### What is left -/

/-- Nothing lies beneath the system table. -/
def Clear : Prop := ∀ name ∈ ts.names, ¬ Beneath systemTable name

variable {ts}

/-- Where nothing lies beneath the system table, only the system table goes. -/
theorem Clear.getElem?_purged (h : ts.Clear) {name : String} (hname : name ≠ systemTable) :
    ts.purged[name]? = ts[name]?.map Records.plainOnly := by
  rw [Tables.getElem?_purged]
  split
  · next hbeneath =>
    have hnone : ts[name]? = none := by
      refine Std.ExtTreeMap.getElem?_eq_none fun hmem => ?_
      exact h name (ts.mem_names.mpr ⟨hmem, hname⟩) (inSubtree_iff.mp hbeneath)
    rw [hnone, Option.map_none]
  · rfl

/-- All listed tables stay listed. -/
theorem Clear.names_purged (h : ts.Clear) : ts.purged.names = ts.names := by
  refine List.Pairwise.eq_of_mem_iff (pairwise_names _) ts.pairwise_names fun name => ?_
  rw [mem_names, mem_names, and_congr_left_iff]
  intro hne
  rw [← Std.ExtTreeMap.isSome_getElem?_iff_mem, h.getElem?_purged hne, Option.isSome_map,
    Std.ExtTreeMap.isSome_getElem?_iff_mem]

/-- No encrypted record is left. -/
theorem find?_purged_of_mem {table key : String} (h : (table, key) ∈ ts.encryptedPlaces) :
    ts.purged.find? table key = none := by
  obtain ⟨-, payload, hfound⟩ := h
  rw [find?_purged, hfound]
  split
  · rfl
  · rfl

/-- All other records are left. -/
theorem Clear.find?_purged_of_notMem (h : ts.Clear) {table key : String}
    (htable : table ≠ systemTable) (hplace : (table, key) ∉ ts.encryptedPlaces) :
    ts.purged.find? table key = ts.find? table key := by
  have hplain : ¬ (ts.find? table key).any isEncrypted = true := by
    rw [any_isEncrypted_iff]
    exact fun hfound => hplace ⟨htable, hfound⟩
  rw [find?_eq, h.getElem?_purged htable]
  cases hrecords : ts[table]? with
  | none => rw [find?_eq, hrecords]; rfl
  | some records =>
    rw [find?_eq, hrecords, Option.getD_some] at hplain ⊢
    rw [Option.map_some, Option.getD_some, Records.getElem?_plainOnly]
    cases hfound : records[key]? with
    | none => rfl
    | some record =>
      rw [hfound] at hplain
      simpa [Option.filter] using hplain

/-- No place of an encrypted record is left. -/
theorem encryptedPlaces_purged (ts : Tables) : ts.purged.encryptedPlaces = ∅ := by
  refine Set.eq_empty_iff_forall_notMem.mpr ?_
  rintro ⟨table, key⟩ ⟨-, payload, hfound⟩
  rw [find?_purged] at hfound
  split at hfound
  · cases hfound
  · rw [Option.filter_eq_some_iff] at hfound
    cases hfound.2

/-- A second purge has nothing to remove. -/
@[simp] theorem purged_purged (ts : Tables) : ts.purged.purged = ts.purged := by
  apply Std.ExtTreeMap.ext_getElem?
  intro name
  rw [Tables.getElem?_purged ts.purged, Tables.getElem?_purged ts]
  split
  · rfl
  · rw [Option.map_map]
    exact congrArg (Option.map · _) (funext Records.plainOnly_plainOnly)

end Storage.Tables

namespace Padlock

/-- The marker goes with the system table. -/
theorem purged_marked (ts : Tables) : (marked ts).purged = ts.purged := by
  apply Std.ExtTreeMap.ext_getElem?
  intro name
  rw [Tables.getElem?_purged, Tables.getElem?_purged, marked, Tables.getElem?_put]
  split
  · rfl
  · next hbeneath =>
    have hname : name ≠ systemTable := by
      rintro rfl
      exact hbeneath (by decide)
    rw [if_neg hname]

/-- The marker is not an encrypted record. -/
theorem countEncrypted_marked (ts : Tables) :
    (marked ts).countEncrypted ts.names = ts.countEncrypted ts.names := by
  refine congrArg List.sum (List.map_congr_left fun name hname => ?_)
  rw [Tables.recordsOf_eq, Tables.recordsOf_eq, marked, Tables.getElem?_put,
    if_neg (ts.mem_names.mp hname).2]

section Runs

variable {σ : Type} [Backend σ] [LawfulBackend σ] {ts : Tables}

/-- A reset on storage that runs to its end counts the encrypted records and purges the tables. -/
theorem outcome_reset (hm : ¬ mortal σ) {s : σ} (hs : view s = some ts) :
    (outcome reset s).1 = .ok (ts.countEncrypted ts.names) ∧
      view (outcome reset s).2 = some ts.purged := by
  obtain ⟨s', hrun, hview⟩ := (reset_runs ts).outcome hm hs
  rw [outcome_of_answering hrun, ← countEncrypted_marked, ← purged_marked]
  exact ⟨rfl, hview⟩

/-- **A crypt reset removes the encrypted records.** On any open storage, with nothing beneath the
    system table, a reset answers how many records outside the system table begin with the flag.
    None of these is there afterwards. Every other record outside the system table is as it was,
    the same tables are listed, and the system table has gone. Another reset removes nothing. -/
theorem reset_removes_encrypted (hm : ¬ mortal σ) {s : σ} (hs : view s = some ts)
    (hclear : ts.Clear) :
    ∃ n us, (outcome reset s).1 = .ok n ∧ view (outcome reset s).2 = some us ∧
      ts.encryptedPlaces.encard = n ∧
      (∀ place ∈ ts.encryptedPlaces, us.find? place.1 place.2 = none) ∧
      (∀ table key, table ≠ systemTable → (table, key) ∉ ts.encryptedPlaces →
        us.find? table key = ts.find? table key) ∧
      us.names = ts.names ∧ us[systemTable]? = none ∧
      (outcome reset (outcome reset s).2).1 = .ok 0 ∧
      view (outcome reset (outcome reset s).2).2 = some us := by
  obtain ⟨hanswer, hview⟩ := outcome_reset hm hs
  obtain ⟨hagain, hview'⟩ := outcome_reset hm hview
  have hnothing : ts.purged.countEncrypted ts.purged.names = 0 := by
    have hcount := ts.purged.encard_encryptedPlaces
    rw [ts.encryptedPlaces_purged, Set.encard_empty] at hcount
    exact_mod_cast hcount.symm
  rw [hnothing] at hagain
  rw [Tables.purged_purged] at hview'
  exact ⟨_, _, hanswer, hview, ts.encard_encryptedPlaces,
    fun place hplace => Tables.find?_purged_of_mem hplace,
    fun table key htable hplace => hclear.find?_purged_of_notMem htable hplace,
    hclear.names_purged, purged_systemTable ts, hagain, hview'⟩

/-- Two tables with an encrypted record each, an empty record, one with an unknown flag and a lock
    record that nothing can read: two records go, and both tables stay. -/
theorem reset_removes_encrypted_memory :
    let ts : Tables := (((((∅ : Tables).put systemTable lockKey [9]).put "t" "empty" []).put
      "t" "odd" [7, 1]).put "t" "secret" [1, 2]).put "u" "secret" [1]
    ∃ us, (outcome reset (⟨some ts⟩ : Memory)).1 = .ok 2 ∧
      view (outcome reset (⟨some ts⟩ : Memory)).2 = some us ∧
      us.find? "t" "secret" = none ∧ us.find? "t" "empty" = some [] ∧
      us.find? "t" "odd" = some [7, 1] ∧ us.names = ["t", "u"] := by
  intro ts
  obtain ⟨n, us, -, hview, -, hgone, hkept, hnames, -⟩ := reset_removes_encrypted
    (σ := Memory) (s := ⟨some ts⟩) (fun h => h) rfl (by
      intro name hname
      rw [← inSubtree_iff]
      revert name
      decide)
  have hplain : ∀ {key record}, ts.find? "t" key = some record → isEncrypted record = false →
      ("t", key) ∉ ts.encryptedPlaces := by
    rintro key record hrecord hflag ⟨-, payload, hfound⟩
    obtain rfl : record = 1 :: payload := Option.some.inj (hrecord.symm.trans hfound)
    cases hflag
  refine ⟨us, rfl, hview, hgone ("t", "secret") ⟨by decide, [2], rfl⟩, ?_, ?_, hnames.trans rfl⟩
  · exact hkept "t" "empty" (by decide) (hplain rfl rfl)
  · exact hkept "t" "odd" (by decide) (hplain rfl rfl)

end Runs

end Padlock

end TableVault
