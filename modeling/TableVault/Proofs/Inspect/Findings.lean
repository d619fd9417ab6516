import TableVault.Inspect
import TableVault.Proofs.Tree.Refinement

namespace TableVault

open Storage Record

/-!
# What an inspection finds

An inspection goes down a path from a handle and looks at the tables there. What it answers is a
function of the tables.

* `Runs.look_bind` — looks one after another answer what their answers make together;
* `Inspect.descendThrough_eq` and `Inspect.descend_eq_ok` — going down a path is going down its
  segments one by one;
* `Inspect.pathSegments_append` and `Inspect.descend_extended` — the segments of a longer path,
  which are followed from the end of the shorter one;
* `Inspect.tables_runs`, `Inspect.keys_runs` and `Inspect.namespaces_runs` — the three
  inspections on every lawful backend. They leave the tables alone, whatever they answer.
-/

/-! ### Looking -/

section Looking

variable {σ ε α β : Type} [Visible σ] {ts : Tables} {cut : Set Tables}

/-- Looks one after another answer what their answers make together, errors included. -/
theorem Storage.Runs.look_bind {x : EStateM ε σ α} {f : α → EStateM ε σ β} {r : Except ε α}
    {g : α → Except ε β} (hx : Runs x ts r ts cut) (hf : ∀ a, Runs (f a) ts (g a) ts cut) :
    Runs (x >>= f) ts (r >>= g) ts cut := by
  cases r with
  | error e => exact hx.bind_error
  | ok a =>
    have h := hx.bind (hf a)
    rwa [Set.union_self] at h

end Looking

namespace Store

variable {σ α : Type} [Backend σ] [LawfulBackend σ] {ts : Tables}

/-- A look at a table answers what is found under its backend name. -/
theorem look_at_runs (s : Store) (table : String) {x : String → StorageAction σ α} {look : String → α}
    (h : ∀ name, Runs (x name) ts (.ok (look name)) ts ∅) :
    Runs (s.onTable table x) ts (do return look (← s.position.qualify table)) ts {ts} := by
  have hlook := Store.look_runs (s := s) table h
  unfold lookEffect at hlook
  cases hname : s.position.qualify table with
  | ok name =>
    rw [hname] at hlook
    exact hlook
  | error fault =>
    rw [hname] at hlook
    exact hlook

end Store

namespace Inspect

/-! ### Going down -/

/-- Going down some segments is following them one by one. -/
theorem descendThrough_eq (s : Store) (segments : List String) :
    descendThrough s segments = s.follow (segments.map .sub) := by
  induction segments generalizing s with
  | nil => rfl
  | cons segment rest ih =>
    show (do descendThrough (← s.sub segment) rest) = do (← s.sub segment).follow (rest.map .sub)
    exact bind_congr fun next => ih next

/-- Going down more segments is going on from the end of the first ones. -/
theorem descendThrough_append (s : Store) (front back : List String) :
    descendThrough s (front ++ back) = (do descendThrough (← descendThrough s front) back) := by
  induction front generalizing s with
  | nil => rfl
  | cons segment rest ih =>
    rw [List.cons_append, descendThrough, descendThrough, bind_assoc]
    exact bind_congr fun next => ih next

/-- A handle that a path leads to is at the end of its segments, which are valid names. -/
theorem descend_eq_ok {e : Encoder} {base : List String} {path : Option String} {place : Store}
    (h : descend ⟨e, .ofPath base⟩ path = .ok place) :
    place = ⟨e, .ofPath (base ++ pathSegments (path.getD ""))⟩ ∧
      ∀ s ∈ pathSegments (path.getD ""), ValidName s := by
  rw [descend, descendThrough_eq] at h
  obtain ⟨final, hfinal, rfl⟩ := ofPath_of_follow base h
  obtain ⟨rfl, hvalid⟩ := pathAfter_sub hfinal
  exact ⟨rfl, hvalid⟩

/-- A handle that is reached from the top is at the end of a path of valid names. -/
theorem exists_ofPath {e : Encoder} {moves : List Move} {handle : Store}
    (h : Store.follow ⟨e, .root⟩ moves = .ok handle) :
    ∃ base, (∀ s ∈ base, ValidName s) ∧ handle = ⟨e, .ofPath base⟩ := by
  obtain ⟨base, hbase, rfl⟩ := ofPath_of_follow [] h
  exact ⟨base, valid_of_pathAfter (by simp) hbase, rfl⟩

/-- A path from a handle that is reached from the top leads to the end of a path of valid names. -/
theorem exists_ofPath_descend {e : Encoder} {moves : List Move} {handle place : Store}
    {path : Option String} (hhandle : Store.follow ⟨e, .root⟩ moves = .ok handle)
    (hplace : descend handle path = .ok place) :
    ∃ final, (∀ s ∈ final, ValidName s) ∧ place = ⟨e, .ofPath final⟩ := by
  obtain ⟨base, hbase, rfl⟩ := exists_ofPath hhandle
  obtain ⟨rfl, hbelow⟩ := descend_eq_ok hplace
  exact ⟨_, fun s hs => (List.mem_append.mp hs).elim (hbase s) (hbelow s), rfl⟩

/-- A path of valid names leads to the handle at the end of its segments. -/
theorem descend_of_valid (e : Encoder) (base : List String) (path : Option String)
    (h : ∀ s ∈ pathSegments (path.getD ""), ValidName s) :
    descend ⟨e, .ofPath base⟩ path = .ok ⟨e, .ofPath (base ++ pathSegments (path.getD ""))⟩ := by
  rw [descend, descendThrough_eq, follow_eq, pathAfter_sub_of_valid base h]
  rfl

/-- A slash divides the segments before it from those after it. -/
theorem pathSegments_append (a b : String) :
    pathSegments (a ++ "/" ++ b) = pathSegments a ++ pathSegments b := by
  have htext : (a ++ "/" ++ b).toList = a.toList ++ '/' :: b.toList := by
    simp [String.toList_append]
  rw [pathSegments, htext, pieces_append_cons, List.filter_append, List.map_append, pathSegments,
    pathSegments]

/-- Going down a path that is longer is going on from the end of the path. -/
theorem descend_extended {s place : Store} {path : Option String} (h : descend s path = .ok place)
    (more : String) : descend s (some (path.getD "" ++ "/" ++ more)) = descend place (some more) := by
  rw [descend] at h
  rw [descend, Option.getD_some, pathSegments_append, descendThrough_append, h]
  rfl

/-! ### What is found -/

/-- What there is to say about a table at a place. -/
def statsOf (ts : Tables) (ns : Namespace) (table : String) : Except VaultError TableStats := do
  return ⟨table, (ts.recordsOf (← ns.qualify table)).size⟩

/-- What there is to say about the keys of a table. -/
def infosOf (records : Records) : List KeyInfo :=
  records.toList.map fun r => ⟨r.1, isEncrypted r.2, r.2.length⟩

/-- What there is to say about some keys of a table, one after another. -/
theorem infosOf_eq (records : Records) :
    infosOf records = records.keys.filterMap fun key =>
      records[key]?.map fun record => ⟨key, isEncrypted record, record.length⟩ := by
  rw [← Std.ExtTreeMap.map_fst_toList_eq_keys, List.filterMap_map, infosOf, ← List.filterMap_eq_map]
  refine List.filterMap_congr fun r hr => ?_
  have hfound : records[r.1]? = some r.2 := Std.ExtTreeMap.mem_toList_iff_getElem?_eq_some.mp hr
  rw [Function.comp, Function.comp, hfound]
  rfl

section Runs

variable {σ : Type} [Backend σ] [LawfulBackend σ] {ts : Tables}

/-- The key counts of some tables are asked for one by one. -/
theorem tableStats_runs (s : Store) (ts : Tables) (names : List String) :
    Runs (σ := σ) (tableStats s names) ts (names.mapM (statsOf ts s.position)) ts {ts} := by
  induction names with
  | nil => exact (Runs.pure [] ts).mono (Set.empty_subset _)
  | cons name rest ih =>
    have hcount := Store.look_at_runs s name (LawfulBackend.countKeys_runs (σ := σ) ts)
    have hrun := hcount.look_bind fun n =>
      ih.look_bind fun more => (Runs.pure (⟨name, n⟩ :: more) ts).mono (Set.empty_subset {ts})
    simp only [bind_assoc, pure_bind] at hrun
    simp only [List.mapM_cons, statsOf, bind_assoc, pure_bind]
    exact hrun

/-- **The tables of a place**, as the tables of the backend tell. -/
theorem tables_runs (s : Store) (path : Option String) (ts : Tables) :
    Runs (σ := σ) (tables s path) ts (do
      let place ← descend s path
      return ⟨displayNamespace path,
        ← (place.position.childTables ts.names).mapM (statsOf ts place.position)⟩) ts {ts} := by
  have hplace := (Runs.ofExcept (σ := σ) (descend s path) ts).mono (Set.empty_subset {ts})
  refine hplace.look_bind fun place => ?_
  have hlist : Runs (σ := σ) place.tables ts (.ok (place.position.childTables ts.names)) ts {ts} :=
    Store.list_runs _
  exact hlist.look_bind fun names => (tableStats_runs place ts names).look_bind fun stats =>
    (Runs.pure _ ts).mono (Set.empty_subset _)

/-- The records of some keys of a table are asked for one by one. -/
theorem keyInfos_runs {s : Store} {table name : String} (hname : s.position.qualify table = .ok name)
    (ts : Tables) (keys : List String) :
    Runs (σ := σ) (keyInfos s table keys) ts (.ok (keys.filterMap fun key =>
      (ts.recordsOf name)[key]?.map fun record => ⟨key, isEncrypted record, record.length⟩)) ts {ts} := by
  induction keys with
  | nil => exact (Runs.pure [] ts).mono (Set.empty_subset _)
  | cons key rest ih =>
    have hget : Runs (σ := σ) (s.rawGet table key) ts (.ok (ts.find? name key)) ts {ts} := by
      have h := Store.look_at_runs s table fun name => LawfulBackend.get_runs (σ := σ) ts name key
      rwa [hname] at h
    rw [Tables.find?] at hget
    refine Runs.mono (hget.bind ?_) (Set.union_self {ts}).subset
    cases hfound : (ts.recordsOf name)[key]? with
    | none =>
      rw [List.filterMap_cons_none (by rw [hfound]; rfl)]
      exact ih
    | some record =>
      rw [List.filterMap_cons_some (by rw [hfound]; rfl)]
      exact ih.map _

/-- **The keys of a table at a place**, as the records of the table tell. -/
theorem keys_runs (s : Store) (path : Option String) (table : String) (ts : Tables) :
    Runs (σ := σ) (keys s path table) ts (do
      let place ← descend s path
      return infosOf (ts.recordsOf (← place.position.qualify table))) ts {ts} := by
  have hplace := (Runs.ofExcept (σ := σ) (descend s path) ts).mono (Set.empty_subset {ts})
  refine hplace.look_bind fun place => ?_
  have hkeys := Store.look_at_runs place table (LawfulBackend.keys_runs (σ := σ) ts)
  cases hname : place.position.qualify table with
  | error fault =>
    rw [hname] at hkeys
    exact hkeys.bind_error
  | ok name =>
    rw [hname] at hkeys
    have hinfos := hkeys.bind (keyInfos_runs hname ts (ts.recordsOf name).keys)
    rw [Set.union_self, ← infosOf_eq] at hinfos
    exact hinfos

/-- **What lies below a place**, as the tables of the backend tell. -/
theorem namespaces_runs (s : Store) (path : Option String) (all : Bool) (ts : Tables) :
    Runs (σ := σ) (namespaces s path all) ts (do
      let place ← descend s path
      return ⟨displayNamespace path,
        (place.position.subNamespaces (!all) ts.names).map withSlashes⟩) ts {ts} := by
  have hplace := (Runs.ofExcept (σ := σ) (descend s path) ts).mono (Set.empty_subset {ts})
  refine hplace.look_bind fun place => ?_
  have hlist : Runs (σ := σ) (place.namespaces (!all)) ts
      (.ok (place.position.subNamespaces (!all) ts.names)) ts {ts} := Store.list_runs _
  exact hlist.map _

end Runs

end Inspect

end TableVault
