import TableVault.Proofs.Padlock.Records
import TableVault.Proofs.Storage.Lawful

namespace TableVault

open Storage Record

/-!
# Removing what is encrypted

* `Records.encryptedKeys` and `Records.plainOnly` — the keys of the encrypted records of a
  table, and the other records;
* `Tables.purgeAmong` — the tables after some of them have lost their encrypted records;
* `Tables.purged` — the tables after all of them have, and the system table has gone;
  `Tables.getElem?_purged` says what is left of each;
* `Padlock.purgeTables_runs` and `Padlock.purge_runs` — the removal table by table. A
  process that dies meanwhile has purged the first few tables.
-/

namespace Storage

namespace Records

/-- The keys of the encrypted records. -/
def encryptedKeys (records : Records) : List String :=
  records.keys.filter fun key => records[key]?.any isEncrypted

/-- The records that are not encrypted. -/
def plainOnly (records : Records) : Records :=
  records.filter fun _ record => !isEncrypted record

/-- The plain record at a key. -/
theorem getElem?_plainOnly (records : Records) (key : String) :
    (plainOnly records)[key]? = records[key]?.filter fun record => !isEncrypted record :=
  Std.ExtTreeMap.getElem?_filter'

/-- The keys of the encrypted records are those at which there is one. -/
theorem mem_encryptedKeys {records : Records} {key : String} :
    key ∈ encryptedKeys records ↔ records[key]?.any isEncrypted = true := by
  rw [encryptedKeys, List.mem_filter, Std.ExtTreeMap.mem_keys]
  refine ⟨fun h => h.2, fun h => ⟨?_, h⟩⟩
  rw [← Std.ExtTreeMap.isSome_getElem?_iff_mem]
  cases hkey : records[key]? with
  | none =>
    rw [hkey] at h
    cases h
  | some record => rfl

/-- Without the encrypted records the plain ones are left. -/
theorem without_encryptedKeys (records : Records) :
    without records (encryptedKeys records) = plainOnly records := by
  apply Std.ExtTreeMap.ext_getElem?
  intro key
  rw [getElem?_without, getElem?_plainOnly]
  simp only [mem_encryptedKeys]
  cases records[key]? with
  | none => simp
  | some record => cases h : isEncrypted record <;> simp [h, Option.filter]

/-- All encrypted records count when they are removed. -/
theorem countAmong_encryptedKeys (records : Records) :
    countAmong records (encryptedKeys records) = (encryptedKeys records).length := by
  rw [countAmong, encryptedKeys]
  refine congrArg List.length (List.filter_congr fun key hkey => ?_)
  rw [List.contains_eq_mem]
  simp only [List.mem_filter, hkey, true_and, Bool.decide_eq_true]

/-- Plain records stay when the encrypted ones are removed again. -/
@[simp] theorem plainOnly_plainOnly (records : Records) :
    plainOnly (plainOnly records) = plainOnly records := by
  apply Std.ExtTreeMap.ext_getElem?
  intro key
  rw [getElem?_plainOnly, getElem?_plainOnly, Option.filter_filter]
  simp only [Bool.and_self]

end Records

namespace Tables

variable (ts : Tables)

/-- The tables after some of them have lost their encrypted records. -/
def purgeAmong (names : List String) : Tables :=
  ts.map fun name records => if name ∈ names then records.plainOnly else records

/-- The number of encrypted records in some tables. -/
def countEncrypted (names : List String) : Nat :=
  (names.map fun name => (ts.recordsOf name).encryptedKeys.length).sum

/-- The tables after all of them have lost their encrypted records, without the system
    table. -/
def purged : Tables :=
  (ts.purgeAmong ts.names).dropSubtree systemTable

/-- A table has lost its encrypted records if it is among those. -/
theorem getElem?_purgeAmong (names : List String) (name : String) :
    (ts.purgeAmong names)[name]? =
      if name ∈ names then ts[name]?.map Records.plainOnly else ts[name]? := by
  rw [purgeAmong, Std.ExtTreeMap.getElem?_map]
  by_cases h : name ∈ names
  · simp only [if_pos h]
  · simp only [if_neg h, Option.map_id']

/-- A table that is not among those keeps its records. -/
theorem recordsOf_purgeAmong {names : List String} {name : String} (h : name ∉ names) :
    (ts.purgeAmong names).recordsOf name = ts.recordsOf name := by
  rw [recordsOf_eq, recordsOf_eq, getElem?_purgeAmong, if_neg h]

/-- **What a purge leaves of a table.** Its plain records, and nothing if it is the system table
    or beneath it. -/
theorem getElem?_purged (name : String) :
    ts.purged[name]? =
      if inSubtree name systemTable then none else ts[name]?.map Records.plainOnly := by
  rw [purged, getElem?_dropSubtree, getElem?_purgeAmong]
  by_cases hbeneath : inSubtree name systemTable = true
  · rw [if_pos hbeneath, if_pos hbeneath]
  · rw [if_neg hbeneath, if_neg hbeneath]
    by_cases hlisted : name ∈ ts.names
    · rw [if_pos hlisted]
    · -- A table that is not listed is the system table, or not there at all.
      have hnone : ts[name]? = none := by
        refine Std.ExtTreeMap.getElem?_eq_none fun hmem => hlisted (ts.mem_names.mpr ⟨hmem, ?_⟩)
        rintro rfl
        exact hbeneath (by decide)
      rw [if_neg hlisted, hnone, Option.map_none]

/-- What is found after a purge: only what is plain, and nothing in or beneath the system
    table. -/
theorem find?_purged (table key : String) :
    ts.purged.find? table key =
      if inSubtree table systemTable then none
      else (ts.find? table key).filter fun record => !isEncrypted record := by
  rw [find?_eq, find?_eq, getElem?_purged]
  by_cases hbeneath : inSubtree table systemTable = true
  · rw [if_pos hbeneath, if_pos hbeneath]
    exact Std.ExtTreeMap.getElem?_empty
  · rw [if_neg hbeneath, if_neg hbeneath]
    cases ts[table]? with
    | none => simp
    | some records => exact records.getElem?_plainOnly key

/-- No table is listed or unlisted. -/
@[simp] theorem names_purgeAmong (names : List String) : (ts.purgeAmong names).names = ts.names := by
  rw [Tables.names, Tables.names, purgeAmong, Std.ExtTreeMap.keys_map]

/-- Nothing is removed for no tables. -/
@[simp] theorem purgeAmong_nil : ts.purgeAmong [] = ts :=
  Std.ExtTreeMap.ext_getElem? fun name => by simp [getElem?_purgeAmong]

/-- Some tables are purged one after another. -/
theorem purgeAmong_purgeAmong (names more : List String) :
    (ts.purgeAmong names).purgeAmong more = ts.purgeAmong (names ++ more) := by
  apply Std.ExtTreeMap.ext_getElem?
  intro name
  simp only [getElem?_purgeAmong, List.mem_append]
  by_cases hnames : name ∈ names
  · by_cases hmore : name ∈ more
    · cases ts[name]? <;> simp [hnames, hmore]
    · simp [hnames, hmore]
  · by_cases hmore : name ∈ more <;> simp [hnames, hmore]

/-- The records of a table that are removed are its encrypted ones. -/
theorem removeKeys_encryptedKeys (table : String) :
    ts.removeKeys table (ts.recordsOf table).encryptedKeys = ts.purgeAmong [table] := by
  apply Std.ExtTreeMap.ext_getElem?
  intro name
  rw [getElem?_removeKeys, getElem?_purgeAmong]
  by_cases h : name = table
  · rw [if_pos h, if_pos (by simp [h]), recordsOf_eq, h]
    cases ts[table]? with
    | none => rfl
    | some records => exact congrArg some (Records.without_encryptedKeys records)
  · rw [if_neg h, if_neg (by simpa using h)]

end Tables

end Storage

namespace Padlock

variable {σ : Type} [Backend σ] [LawfulBackend σ] {ts : Tables}

/-- Looking for the encrypted records of a table. -/
theorem encryptedKeys_runs (ts : Tables) (table : String) (keys : List String) :
    Runs (σ := σ) (encryptedKeys table keys) ts
      (.ok (keys.filter fun key => (ts.find? table key).any isEncrypted)) ts ∅ := by
  induction keys with
  | nil => exact Runs.pure [] ts
  | cons key rest ih =>
    refine (LawfulBackend.get_runs ts table key).ofStorage.bind_of_look ?_
    have h := ih.map fun more => if (ts.find? table key).any isEncrypted then key :: more else more
    rw [List.filter_cons]
    exact h

/-- Removing the encrypted records of a table. -/
theorem purgeTable_runs (ts : Tables) (table : String) :
    Runs (σ := σ) (purgeTable table) ts (.ok (ts.recordsOf table).encryptedKeys.length)
      (ts.purgeAmong [table]) {ts} := by
  refine (LawfulBackend.keys_runs ts table).ofStorage.bind_of_look ?_
  refine (encryptedKeys_runs ts table _).bind_of_look ?_
  show Runs (if (ts.recordsOf table).encryptedKeys.isEmpty then _ else _) _ _ _ _
  rw [← ts.removeKeys_encryptedKeys]
  -- Where there is nothing to remove nothing is written.
  by_cases hempty : (ts.recordsOf table).encryptedKeys.isEmpty
  · rw [if_pos hempty, List.isEmpty_iff.mp hempty, Tables.removeKeys_nil]
    exact (Runs.pure 0 ts).mono (Set.empty_subset _)
  · rw [if_neg hempty, ← Records.countAmong_encryptedKeys]
    exact (LawfulBackend.unsetMany_runs ts table _).ofStorage

/-- **Removal table by table.** A process that dies meanwhile has purged the first few
    tables. -/
theorem purgeTables_runs (ts : Tables) {names : List String} (hnodup : names.Nodup) :
    Runs (σ := σ) (purgeTables names) ts (.ok (ts.countEncrypted names)) (ts.purgeAmong names)
      {us | ∃ front, front <+: names ∧ us = ts.purgeAmong front} := by
  induction names generalizing ts with
  | nil =>
    rw [Tables.purgeAmong_nil]
    exact (Runs.pure 0 ts).mono (Set.empty_subset _)
  | cons name rest ih =>
    obtain ⟨hname, hrest⟩ := List.nodup_cons.mp hnodup
    -- No table comes twice, so the others still have what they had.
    have hcount : (ts.purgeAmong [name]).countEncrypted rest = ts.countEncrypted rest := by
      refine congrArg List.sum (List.map_congr_left fun other hother => ?_)
      have hne : other ∉ [name] := by
        rw [List.mem_singleton]
        rintro rfl
        exact hname hother
      rw [ts.recordsOf_purgeAmong hne]
    have htail := (ih (ts.purgeAmong [name]) hrest).map fun m =>
      (ts.recordsOf name).encryptedKeys.length + m
    rw [hcount, Tables.purgeAmong_purgeAmong] at htail
    refine ((purgeTable_runs ts name).bind htail).mono (Set.union_subset ?_ ?_)
    · rintro us rfl
      exact ⟨[], List.nil_prefix, us.purgeAmong_nil.symm⟩
    · rintro us ⟨front, hfront, rfl⟩
      exact ⟨name :: front, List.cons_prefix_cons.mpr ⟨rfl, hfront⟩, ts.purgeAmong_purgeAmong _ _⟩

/-- **The removal of everything encrypted.** A process that dies meanwhile has purged the
    first few tables. -/
theorem purge_runs (ts : Tables) :
    Runs (σ := σ) purge ts (.ok (ts.countEncrypted ts.names)) ts.purged
      {us | ∃ front, front <+: ts.names ∧ us = ts.purgeAmong front} := by
  refine (LawfulBackend.tables_runs ts).ofStorage.bind_of_look ?_
  have hdrop := (LawfulBackend.dropTable_runs (σ := σ) (ts.purgeAmong ts.names) systemTable).ofStorage.map
    fun _ => ts.countEncrypted ts.names
  refine ((purgeTables_runs ts ts.pairwise_names.nodup).bind hdrop).mono (Set.union_subset ?_ ?_)
  · exact subset_rfl
  · rintro us rfl
    exact ⟨ts.names, List.prefix_rfl, rfl⟩

end Padlock

end TableVault
