import Mathlib
import TableVault.Storage.Tables

namespace TableVault.Storage

/-!
# Tables as maps of maps

Every change of a value of type `Tables` is described by what it leaves at each name, so
that two ways to make a change are compared name by name.

* `Beneath` — when a name is a given one or lies beneath it, said without a computation;
  `inSubtree_iff` relates it to the test;
* `Tables.getElem?_put`, `Tables.getElem?_remove`, `Tables.getElem?_dropSubtree` — what
  each change leaves at a name, and `Tables.find?_put` and the like, what record it leaves
  at a key;
* `Tables.removeKeys` and `Tables.countPresent` — the removal of several records of a
  table, and how many of them there were;
* `Tables.pairwise_names` and `Tables.mem_names` — the listed names: strictly
  increasing, and all but the system table.
-/

/-! ### Names -/

/-- A name is `base`, or `base` followed by the separator and more. Nothing lies beneath
    the empty name. -/
def Beneath (base name : String) : Prop :=
  base ≠ "" ∧ (name = base ∨ ∃ rest : String, name = base ++ String.singleton separator ++ rest)

/-- The test for names beneath a name is right. -/
theorem inSubtree_iff {name base : String} : inSubtree name base = true ↔ Beneath base name := by
  unfold inSubtree Beneath
  split
  · next hbase => simp [hbase]
  · next hbase =>
    constructor
    · intro h
      refine ⟨hbase, ?_⟩
      -- What is left of the name behind `base` is nothing, or its first character counts.
      split at h
      · next hp =>
        left
        rw [List.isPrefixOf?_eq_some_iff_append_eq, List.append_nil] at hp
        exact (String.toList_inj.mp hp).symm
      · next c rest hp =>
        right
        rw [List.isPrefixOf?_eq_some_iff_append_eq] at hp
        have hc : c = separator := by simpa using h
        refine ⟨String.ofList rest, String.toList_inj.mp ?_⟩
        simp [← hp, hc]
      · exact absurd h (by simp)
    · rintro ⟨-, rfl | ⟨rest, rfl⟩⟩
      · have hp : name.toList.isPrefixOf? name.toList = some [] := by
          rw [List.isPrefixOf?_eq_some_iff_append_eq, List.append_nil]
        simp [hp]
      · have hp : base.toList.isPrefixOf? (base.toList ++ separator :: rest.toList) =
            some (separator :: rest.toList) := by
          rw [List.isPrefixOf?_eq_some_iff_append_eq]
        simp [hp]

/-! ### Records -/

namespace Records

/-- The records that are not at one of some keys. -/
def without (records : Records) (keys : List String) : Records :=
  records.filter fun key _ => !keys.contains key

/-- The number of records that are at one of some keys. -/
def countAmong (records : Records) (keys : List String) : Nat :=
  (records.keys.filter keys.contains).length

/-- The keys of a table are strictly increasing. -/
theorem pairwise_keys (records : Records) : records.keys.Pairwise (· < ·) :=
  Std.ExtTreeMap.ordered_keys.imp fun h => compare_lt_iff_lt.mp h

/-- The record at a key stays unless the key is one of them. -/
theorem getElem?_without (records : Records) (keys : List String) (key : String) :
    (without records keys)[key]? = if key ∈ keys then none else records[key]? := by
  rw [without, Std.ExtTreeMap.getElem?_filter']
  by_cases h : key ∈ keys
  · cases records[key]? <;> simp [h]
  · cases records[key]? <;> simp [h]

/-- All records stay for no keys. -/
@[simp] theorem without_nil (records : Records) : without records [] = records :=
  Std.ExtTreeMap.ext_getElem? fun key => by simp [getElem?_without]

/-- Records are left out one after another. -/
theorem without_cons (records : Records) (key : String) (keys : List String) :
    without records (key :: keys) = without (records.erase key) keys := by
  apply Std.ExtTreeMap.ext_getElem?
  intro other
  simp only [getElem?_without, Std.ExtTreeMap.getElem?_erase, compare_eq_iff_eq, List.mem_cons,
    eq_comm (a := key)]
  by_cases hkeys : other ∈ keys
  · simp [hkeys]
  · simp [hkeys]

/-- The records at some keys and the others make up all records. -/
theorem countAmong_add_size (records : Records) (keys : List String) :
    countAmong records keys + (without records keys).size = records.size := by
  rw [countAmong, without, ← Std.ExtTreeMap.length_keys (t := Std.ExtTreeMap.filter _ _),
    Std.ExtTreeMap.keys_filter_key (f := fun key => !keys.contains key),
    ← Std.ExtTreeMap.length_keys (t := records)]
  exact (List.length_eq_length_filter_add _).symm

/-- Nothing counts for no keys. -/
@[simp] theorem countAmong_nil (records : Records) : countAmong records [] = 0 := by
  have h := countAmong_add_size records []
  rw [without_nil] at h
  omega

/-- Nothing counts where there are no records. -/
@[simp] theorem countAmong_empty (keys : List String) : countAmong ∅ keys = 0 := by
  have h := countAmong_add_size ∅ keys
  rw [Std.ExtTreeMap.size_empty] at h
  omega

/-- One key counts if there is a record at it, and the others count without it. -/
theorem countAmong_cons (records : Records) (key : String) (keys : List String) :
    countAmong records (key :: keys) =
      countAmong (records.erase key) keys + if records.contains key then 1 else 0 := by
  -- Both counts are what is missing from a size, and without the keys the same is left.
  have hall := countAmong_add_size records (key :: keys)
  have hrest := countAmong_add_size (records.erase key) keys
  rw [without_cons] at hall
  rw [Std.ExtTreeMap.size_erase] at hrest
  by_cases h : records.contains key = true
  · have hpos : 0 < records.keys.length := List.length_pos_of_mem (by simpa using h)
    rw [Std.ExtTreeMap.length_keys] at hpos
    rw [if_pos h] at hrest ⊢
    omega
  · rw [if_neg h] at hrest ⊢
    omega

end Records

namespace Tables

variable (ts : Tables)

/-! ### Changes, name by name -/

/-- The records of a table are those found at its name, or none. -/
theorem recordsOf_eq (table : String) : ts.recordsOf table = ts[table]?.getD ∅ :=
  Std.ExtTreeMap.getD_eq_getD_getElem?

/-- A table that has been written to has its records, and all others what they had. -/
theorem getElem?_put (table key : String) (record : Bytes) (name : String) :
    (ts.put table key record)[name]? =
      if name = table then some ((ts.recordsOf table).insert key record) else ts[name]? := by
  simp only [put, Std.ExtTreeMap.getElem?_insert, compare_eq_iff_eq, eq_comm (a := table)]

/-- Removing a record changes a table only if it is there. -/
theorem getElem?_remove (table key name : String) :
    (ts.remove table key)[name]? =
      if name = table then ts[table]?.map (·.erase key) else ts[name]? := by
  simp only [remove, Std.ExtTreeMap.getElem?_modify, compare_eq_iff_eq, eq_comm (a := table)]

/-- Dropping a table leaves what does not lie beneath it. -/
theorem getElem?_dropSubtree (base name : String) :
    (ts.dropSubtree base)[name]? = if inSubtree name base then none else ts[name]? := by
  rw [dropSubtree, Std.ExtTreeMap.getElem?_filter']
  cases inSubtree name base <;> cases ts[name]? <;> rfl

/-! ### Changes, record by record -/

/-- A record is found among those of its table. -/
theorem find?_eq (table key : String) : ts.find? table key = (ts[table]?.getD ∅)[key]? := by
  rw [find?, recordsOf_eq]

/-- No record is found where there are no tables. -/
theorem find?_empty (table key : String) : (∅ : Tables).find? table key = none := by
  rw [find?_eq, Std.ExtTreeMap.getElem?_empty, Option.getD_none, Std.ExtTreeMap.getElem?_empty]

/-- A record that has been put is found, and all others as before. -/
theorem find?_put (table key : String) (record : Bytes) (other otherKey : String) :
    (ts.put table key record).find? other otherKey =
      if other = table ∧ otherKey = key then some record else ts.find? other otherKey := by
  rw [find?_eq, find?_eq, getElem?_put]
  by_cases hother : other = table
  · rw [if_pos hother, Option.getD_some, Std.ExtTreeMap.getElem?_insert, recordsOf_eq]
    simp only [hother, compare_eq_iff_eq, true_and, eq_comm (a := key)]
  · rw [if_neg hother, if_neg fun h => hother h.1]

/-- A record that has been removed is not found, and all others as before. -/
theorem find?_remove (table key other otherKey : String) :
    (ts.remove table key).find? other otherKey =
      if other = table ∧ otherKey = key then none else ts.find? other otherKey := by
  rw [find?_eq, find?_eq, getElem?_remove]
  by_cases hother : other = table
  · rw [if_pos hother]
    simp only [hother, true_and]
    cases ts[table]? with
    | none => simp
    | some records =>
      rw [Option.map_some, Option.getD_some, Option.getD_some, Std.ExtTreeMap.getElem?_erase]
      simp only [compare_eq_iff_eq, eq_comm (a := key)]
  · rw [if_neg hother, if_neg fun h => hother h.1]

/-- The records beneath a name that has been dropped are not found, and all others as
    before. -/
theorem find?_dropSubtree (base table key : String) :
    (ts.dropSubtree base).find? table key =
      if inSubtree table base then none else ts.find? table key := by
  rw [find?_eq, find?_eq, getElem?_dropSubtree]
  cases inSubtree table base <;> simp

/-! ### Several records at once -/

/-- Removes the records at some keys of a table. Nothing is created. -/
def removeKeys (table : String) (keys : List String) : Tables :=
  ts.modify table (Records.without · keys)

/-- The number of keys of a table that are among some keys. -/
def countPresent (table : String) (keys : List String) : Nat :=
  Records.countAmong (ts.recordsOf table) keys

/-- Removing several records changes a table only if it is there. -/
theorem getElem?_removeKeys (table : String) (keys : List String) (name : String) :
    (ts.removeKeys table keys)[name]? =
      if name = table then ts[table]?.map (Records.without · keys) else ts[name]? := by
  simp only [removeKeys, Std.ExtTreeMap.getElem?_modify, compare_eq_iff_eq, eq_comm (a := table)]

/-- Nothing is removed for no keys. -/
@[simp] theorem removeKeys_nil (table : String) : ts.removeKeys table [] = ts := by
  apply Std.ExtTreeMap.ext_getElem?
  intro name
  rw [getElem?_removeKeys]
  split
  · next hname =>
    rw [hname]
    cases ts[table]? with
    | none => rfl
    | some records => exact congrArg some (Records.without_nil records)
  · rfl

/-- Several records are removed by removing one and then the others. -/
theorem removeKeys_cons (table key : String) (keys : List String) :
    ts.removeKeys table (key :: keys) = (ts.remove table key).removeKeys table keys := by
  apply Std.ExtTreeMap.ext_getElem?
  intro name
  simp only [getElem?_removeKeys, getElem?_remove, if_true]
  split
  · cases ts[table]? with
    | none => rfl
    | some records => exact congrArg some (Records.without_cons records key keys)
  · rfl

/-- Nothing is removed from a table that is not there. -/
theorem removeKeys_of_not_mem {ts : Tables} {table : String} (h : table ∉ ts)
    (keys : List String) : ts.removeKeys table keys = ts := by
  apply Std.ExtTreeMap.ext_getElem?
  intro name
  rw [getElem?_removeKeys]
  split
  · next hname => rw [hname, Std.ExtTreeMap.getElem?_eq_none h]; rfl
  · rfl

/-- Removing a record takes it from the records of its table. -/
theorem recordsOf_remove (table key : String) :
    (ts.remove table key).recordsOf table = (ts.recordsOf table).erase key := by
  rw [recordsOf_eq, recordsOf_eq, getElem?_remove, if_pos rfl]
  cases ts[table]? with
  | none => exact Std.ExtTreeMap.ext_getElem? fun other => by simp
  | some records => rfl

/-! ### Listings -/

/-- The listed names are strictly increasing. -/
theorem pairwise_names : ts.names.Pairwise (· < ·) := by
  have h : ts.keys.Pairwise (· < ·) :=
    Std.ExtTreeMap.ordered_keys.imp fun h => compare_lt_iff_lt.mp h
  exact h.filter _

/-- All tables but the system table are listed. -/
theorem mem_names {name : String} : name ∈ ts.names ↔ name ∈ ts ∧ name ≠ systemTable := by
  simp [names, isSystem]

/-- The system table is not among listed names. -/
theorem systemTable_notMem {names : List String} (h : names ⊆ ts.names) : systemTable ∉ names :=
  fun hmem => (ts.mem_names.mp (h hmem)).2 rfl

/-- A record in the system table does not change what is listed. -/
theorem names_put_systemTable (key : String) (record : Bytes) :
    (ts.put systemTable key record).names = ts.names := by
  refine List.Pairwise.eq_of_mem_iff (pairwise_names _) ts.pairwise_names fun name => ?_
  rw [mem_names, mem_names, and_congr_left_iff]
  intro hne
  rw [← Std.ExtTreeMap.isSome_getElem?_iff_mem, getElem?_put, if_neg hne,
    Std.ExtTreeMap.isSome_getElem?_iff_mem]

end Tables

end TableVault.Storage
