import TableVault.Proofs.Trace
import TableVault.Proofs.Tree.Model

namespace TableVault

open Storage Record

/-!
# The store is a tree of namespaces

* `treeOf` — the tree that tables spell by their names;
* `treeOf_put`, `treeOf_remove`, `treeOf_dropSubtree`, `childTables_names` and
  `subNamespaces_names` — the tree changes, and is listed, as the tables are;
* `Mirrors` — what has been done to tables is what has been done to their tree;
* `ofPath_of_follow`, `pathAfter_sub` and `pathAfter_sub_of_valid` — handles are at the end of a
  path, and accepted segments make it longer;
* `calls_refine_tree` — every sequence of calls on an open store is answered as by the
  tree, through whatever handles the calls are made.
-/

/-! ### The tree of some tables -/

/-- The tree that tables spell by their names. The system table is not in it. -/
def treeOf (ts : Tables) : Tree :=
  Std.ExtTreeMap.ofList (ts.names.map fun name => (Spot.ofName name, ts.recordsOf name)) _

variable {ts : Tables}

/-- At a spot of the tree is what the tables have under its name. -/
theorem getElem?_treeOf (ts : Tables) (spot : Spot) :
    (treeOf ts)[spot]? =
      if Plain spot.segments ∧ spot.name ≠ systemTable then ts[spot.name]? else none := by
  -- Different names spell different spots, so none of them hides another.
  have hdistinct : (ts.names.map fun name => (Spot.ofName name, ts.recordsOf name)).Pairwise
      fun a b => ¬ (lexOrd : Ord Spot).compare a.1 b.1 = .eq := by
    rw [List.pairwise_map]
    refine ts.pairwise_names.imp fun {a b} hlt heq => ?_
    rw [Std.LawfulEqCmp.compare_eq_iff_eq] at heq
    have hname := congrArg Spot.name heq
    rw [Spot.name_ofName, Spot.name_ofName] at hname
    exact hlt.ne hname
  by_cases hspot : (Plain spot.segments ∧ spot.name ≠ systemTable) ∧ spot.name ∈ ts
  · obtain ⟨⟨hplain, hne⟩, hmem⟩ := hspot
    obtain ⟨records, hrecords⟩ := Option.isSome_iff_exists.mp
      (Std.ExtTreeMap.isSome_getElem?_iff_mem.mpr hmem)
    rw [if_pos ⟨hplain, hne⟩, hrecords]
    refine Std.ExtTreeMap.getElem?_ofList_of_mem Std.ReflCmp.compare_self hdistinct ?_
    refine List.mem_map.mpr ⟨spot.name, ts.mem_names.mpr ⟨hmem, hne⟩, ?_⟩
    rw [Spot.ofName_name hplain, Tables.recordsOf_eq, hrecords, Option.getD_some]
  · have hnone : (treeOf ts)[spot]? = none := by
      refine Std.ExtTreeMap.getElem?_ofList_of_contains_eq_false ?_
      rw [List.map_map, List.contains_eq_mem, decide_eq_false_iff_not, List.mem_map]
      rintro ⟨name, hname, rfl⟩
      obtain ⟨hmem, hne⟩ := ts.mem_names.mp hname
      refine hspot ⟨⟨?_, ?_⟩, ?_⟩
      · rw [Function.comp, Spot.segments_ofName]
        exact plain_segmentsOf name
      · rwa [Function.comp, Spot.name_ofName]
      · rwa [Function.comp, Spot.name_ofName]
    rw [hnone]
    split
    · next h => exact (Std.ExtTreeMap.getElem?_eq_none fun hmem => hspot ⟨h, hmem⟩).symm
    · rfl

/-- At a valid spot of the tree is what the tables have under its name. -/
theorem getElem?_treeOf_of_valid {spot : Spot} (h : spot.Valid) :
    (treeOf ts)[spot]? = ts[spot.name]? := by
  rw [getElem?_treeOf, if_pos ⟨h.plain, Spot.name_ne_systemTable h⟩]

/-- The tables of the tree have spots without separators in their segments. -/
theorem plain_of_mem_treeOf {spot : Spot} (h : spot ∈ treeOf ts) :
    Plain spot.segments ∧ spot.name ∈ ts.names := by
  rw [← Std.ExtTreeMap.isSome_getElem?_iff_mem, getElem?_treeOf] at h
  split at h
  · next hspot =>
    exact ⟨hspot.1, ts.mem_names.mpr ⟨Std.ExtTreeMap.isSome_getElem?_iff_mem.mp h, hspot.2⟩⟩
  · exact absurd h (by simp)

/-- A listed table is in the tree. -/
theorem ofName_mem_treeOf {name : String} (h : name ∈ ts.names) : Spot.ofName name ∈ treeOf ts := by
  obtain ⟨hmem, hne⟩ := ts.mem_names.mp h
  have hplain : Plain (Spot.ofName name).segments := by
    rw [Spot.segments_ofName]
    exact plain_segmentsOf name
  rw [← Std.ExtTreeMap.isSome_getElem?_iff_mem, getElem?_treeOf, Spot.name_ofName,
    if_pos ⟨hplain, hne⟩]
  exact Std.ExtTreeMap.isSome_getElem?_iff_mem.mpr hmem

/-- The records at a valid spot are those that the tables have under its name. -/
theorem recordsAt_treeOf {spot : Spot} (h : spot.Valid) :
    (treeOf ts).recordsAt spot = ts.recordsOf spot.name := by
  rw [Tree.recordsAt_eq, Tables.recordsOf_eq, getElem?_treeOf_of_valid h]

/-! ### Changes -/

/-- Names and spots are the same or different together. -/
private theorem name_eq_iff {spot other : Spot} (h : spot.Valid) (hother : Plain other.segments) :
    other.name = spot.name ↔ other = spot :=
  ⟨Spot.name_inj hother h.plain, fun heq => heq ▸ rfl⟩

/-- What changes the tables under the name of a valid spot only, changes the tree at the
    spot only. -/
private theorem treeOf_eq {spot : Spot} (h : spot.Valid) {us : Tables} {t : Tree}
    {changed : Option Records}
    (hus : ∀ name, us[name]? = if name = spot.name then changed else ts[name]?)
    (ht : ∀ other, t[other]? = if other = spot then changed else (treeOf ts)[other]?) :
    treeOf us = t := by
  apply Std.ExtTreeMap.ext_getElem?
  intro other
  rw [ht, getElem?_treeOf, getElem?_treeOf, hus]
  by_cases hother : Plain other.segments ∧ other.name ≠ systemTable
  · rw [if_pos hother, if_pos hother]
    simp only [name_eq_iff h hother.1]
  · -- Neither the tables nor the tree have anything there, and the spot is elsewhere.
    have hne : other ≠ spot := by
      rintro rfl
      exact hother ⟨h.plain, Spot.name_ne_systemTable h⟩
    rw [if_neg hother, if_neg hother, if_neg hne]

/-- A record that is put into a table is put into its spot of the tree. -/
theorem treeOf_put {spot : Spot} (h : spot.Valid) (key : String) (record : Bytes) :
    treeOf (ts.put spot.name key record) = (treeOf ts).put spot key record := by
  refine treeOf_eq h (ts.getElem?_put spot.name key record) fun other => ?_
  rw [Tree.getElem?_put, recordsAt_treeOf h]

/-- A record that is removed from a table is removed from its spot of the tree. -/
theorem treeOf_remove {spot : Spot} (h : spot.Valid) (key : String) :
    treeOf (ts.remove spot.name key) = (treeOf ts).remove spot key := by
  refine treeOf_eq h (ts.getElem?_remove spot.name key) fun other => ?_
  rw [Tree.getElem?_remove, getElem?_treeOf_of_valid h]

/-- The tables beneath a name are those beneath its spot of the tree. -/
theorem treeOf_dropSubtree {spot : Spot} (h : spot.Valid) :
    treeOf (ts.dropSubtree spot.name) = (treeOf ts).drop spot := by
  apply Std.ExtTreeMap.ext_getElem?
  intro other
  rw [Tree.getElem?_drop, getElem?_treeOf, getElem?_treeOf, Tables.getElem?_dropSubtree]
  by_cases hother : Plain other.segments ∧ other.name ≠ systemTable
  · rw [if_pos hother, if_pos hother]
    simp only [Spot.inSubtree_name_iff h hother.1]
  · rw [if_neg hother, if_neg hother, ite_self]

/-! ### Listings -/

/-- What a name has after the stem of a place comes in the order of the names. -/
theorem pairwise_relative (ns : Namespace) (ts : Tables) :
    (ts.names.filterMap ns.relative?).Pairwise (· < ·) := by
  refine ts.pairwise_names.filterMap _ fun a b hlt x hx y hy => ?_
  rw [Namespace.relative?_eq_some_iff] at hx hy
  -- Both names begin with the stem, so what stands behind it decides.
  rwa [hx.2, hy.2, Namespace.stem_append_lt_iff] at hlt

/-- Exactly the segments after a path are what names have after its stem. -/
private theorem mem_relative {path : List String} (hpath : Plain path) {rest : String} :
    rest ∈ ts.names.filterMap (Namespace.ofPath path).relative? ↔
      ∃ back, back ≠ [] ∧ back ≠ [""] ∧ rest = joined back ∧ Plain back ∧
        ∃ spot ∈ treeOf ts, spot.segments = path ++ back := by
  rw [List.mem_filterMap]
  constructor
  · rintro ⟨name, hname, hrest⟩
    have hspot := ofName_mem_treeOf hname
    have hplain := (plain_of_mem_treeOf hspot).1
    rw [← Spot.name_ofName name, Namespace.relative?_name_iff hpath hplain] at hrest
    obtain ⟨back, hne, hnamed, hsplit, hjoined⟩ := hrest
    exact ⟨back, hne, hnamed, hjoined, fun s hs => hplain s (by simp [hsplit, hs]), _, hspot, hsplit⟩
  · rintro ⟨back, hne, hnamed, rfl, -, spot, hspot, hsplit⟩
    obtain ⟨hplain, hname⟩ := plain_of_mem_treeOf hspot
    refine ⟨spot.name, hname, ?_⟩
    rw [Namespace.relative?_name_iff hpath hplain]
    exact ⟨back, hne, hnamed, hsplit, rfl⟩

/-- The tables of a place are those of the tree. -/
theorem childTables_names {path : List String} (hpath : Plain path) (ts : Tables) :
    (Namespace.ofPath path).childTables ts.names = (treeOf ts).tables path := by
  -- Both lists increase strictly, so they are compared by their members.
  refine List.Pairwise.eq_of_mem_iff ((pairwise_relative _ ts).filter _)
    ((treeOf ts).pairwise_tables path) fun table => ?_
  rw [Tree.mem_tables, Namespace.childTables, List.mem_filter, mem_relative hpath]
  constructor
  · rintro ⟨⟨back, hne, hnamed, rfl, hback, spot, hspot, hsplit⟩, hnested⟩
    obtain ⟨s, rest, rfl⟩ := List.exists_cons_of_ne_nil hne
    rw [Namespace.isNested_joined (hback s (by simp))] at hnested
    obtain rfl : rest = [] := by simpa using hnested
    rw [show joined [s] = s from String.ofList_toList]
    obtain rfl : spot = (path, s) := Spot.segments_inj hsplit
    exact ⟨hspot, fun h => hnamed (by rw [h])⟩
  · rintro ⟨hspot, hne⟩
    have htable : separator ∉ table.toList := (plain_of_mem_treeOf hspot).1 table (by
      simp [Spot.segments])
    have hjoined : joined [table] = table := String.ofList_toList
    refine ⟨⟨[table], by simp, by simpa using hne, hjoined.symm, ?_, (path, table), hspot, rfl⟩, ?_⟩
    · intro s hs
      rwa [List.mem_singleton.mp hs]
    · have hnested := Namespace.isNested_joined htable []
      rw [hjoined] at hnested
      rw [hnested]
      rfl

/-- The whole names below a place are the joined segments of the tree. -/
private theorem nested_names {path : List String} (hpath : Plain path) (ts : Tables) :
    (ts.names.filterMap (Namespace.ofPath path).relative?).filter Namespace.isNested =
      ((treeOf ts).below path).map joined := by
  refine List.Pairwise.eq_of_mem_iff ((pairwise_relative _ ts).filter _)
    ((treeOf ts).pairwise_below (fun spot h => (plain_of_mem_treeOf h).1) path) fun name => ?_
  rw [List.mem_filter, mem_relative hpath, List.mem_map]
  constructor
  · rintro ⟨⟨back, hne, -, rfl, hback, hspot⟩, hnested⟩
    obtain ⟨s, rest, rfl⟩ := List.exists_cons_of_ne_nil hne
    rw [Namespace.isNested_joined (hback s (by simp))] at hnested
    have hrest : 0 < rest.length := List.length_pos_of_ne_nil (by simpa using hnested)
    exact ⟨s :: rest, (treeOf ts).mem_below.mpr ⟨by rw [List.length_cons]; omega, hspot⟩, rfl⟩
  · rintro ⟨back, hback, rfl⟩
    obtain ⟨hlen, spot, hspot, hsplit⟩ := (treeOf ts).mem_below.mp hback
    have hplain : Plain back := fun s hs =>
      (plain_of_mem_treeOf hspot).1 s (by simp [hsplit, hs])
    have hne : back ≠ [] := List.ne_nil_of_length_pos (by omega)
    obtain ⟨s, rest, rfl⟩ := List.exists_cons_of_ne_nil hne
    rw [List.length_cons] at hlen
    have hrest : rest ≠ [] := List.ne_nil_of_length_pos (by omega)
    refine ⟨⟨s :: rest, hne, by simp [hrest], rfl, hplain, spot, hspot, hsplit⟩, ?_⟩
    rw [Namespace.isNested_joined (hplain s (by simp))]
    simpa using hrest

/-- What lies in namespaces below a place is what lies there in the tree. -/
theorem subNamespaces_names {path : List String} (hpath : Plain path) (limitDepth : Bool)
    (ts : Tables) :
    (Namespace.ofPath path).subNamespaces limitDepth ts.names =
      (treeOf ts).namespaces path limitDepth := by
  unfold Namespace.subNamespaces Tree.namespaces
  rw [nested_names hpath]
  cases limitDepth with
  | false => rfl
  | true =>
    -- The first segments are compared before the duplicates are erased.
    simp only [if_true]
    apply congrArg List.eraseDups
    rw [List.map_map, ← List.filterMap_eq_map]
    apply List.filterMap_congr
    intro back hback
    obtain ⟨hlen, spot, hspot, hsplit⟩ := (treeOf ts).mem_below.mp hback
    have hne : back ≠ [] := List.ne_nil_of_length_pos (by omega)
    obtain ⟨s, rest, rfl⟩ := List.exists_cons_of_ne_nil hne
    have hs : separator ∉ s.toList := (plain_of_mem_treeOf hspot).1 s (by simp [hsplit])
    show some (Namespace.firstSegment (joined (s :: rest))) = some s
    rw [Namespace.firstSegment_joined hs]

/-! ### Calls -/

/-- What has been done to tables is what has been done to their tree, and the system
    table has been left alone. -/
structure Mirrors {α : Type} (ts : Tables) (real : Except VaultError α × Tables)
    (model : Except VaultError α × Tree) : Prop where
  answer : real.1 = model.1
  tree : treeOf real.2 = model.2
  system : real.2[systemTable]? = ts[systemTable]?

/-- A look at the tables changes neither them nor the tree. -/
theorem Mirrors.look {α : Type} {real model : Except VaultError α} (h : real = model) :
    Mirrors ts (real, ts) (model, treeOf ts) :=
  ⟨h, rfl, rfl⟩

/-- Checks that agree are followed by what is alike. -/
theorem Mirrors.guarded {α β γ : Type} {check : Except VaultError α} {check' : Except VaultError β}
    {g : β → α} {f : α → Except VaultError γ × Tables} {f' : β → Except VaultError γ × Tree}
    (hcheck : check = check'.map g) (hf : ∀ b, check' = .ok b → Mirrors ts (f (g b)) (f' b)) :
    Mirrors ts (guarded ts check f) (TableVault.guarded (treeOf ts) check' f') := by
  subst hcheck
  cases check' with
  | ok b => exact hf b rfl
  | error e => exact Mirrors.look rfl

variable {e : Encoder} {path : List String}

/-- A way leads to the place at the end of its path. -/
theorem move_eq (e : Encoder) (path : List String) (m : Move) :
    Store.move ⟨e, .ofPath path⟩ m = (m.path path).map fun path => ⟨e, .ofPath path⟩ := by
  cases m with
  | clone => rfl
  | sub name =>
    show (do return { encoder := e, position := ← (Namespace.ofPath path).sub name : Store }) = _
    rw [Namespace.sub_ofPath, Move.path]
    cases validateName name <;> rfl
  | bucket name =>
    show (do return { encoder := e, position := ← Namespace.shared name : Store }) = _
    rw [Namespace.shared_eq, Move.path]
    cases validateName name <;> rfl
  | table name =>
    show (do return (← (do let _ ← (Namespace.ofPath path).qualify name; return (⟨_, name⟩ : View))
      ).store) = _
    rw [Namespace.qualify_ofPath, Move.path]
    cases validateName name <;> rfl

/-- Ways lead to the place at the end of their path. -/
theorem follow_eq (e : Encoder) (path : List String) (moves : List Move) :
    Store.follow ⟨e, .ofPath path⟩ moves =
      (pathAfter path moves).map fun path => ⟨e, .ofPath path⟩ := by
  induction moves generalizing path with
  | nil => rfl
  | cons m rest ih =>
    rw [Store.follow, move_eq, pathAfter]
    cases m.path path with
    | ok next => exact ih next
    | error e => rfl

/-- A handle that some ways lead to is at the end of their path. -/
theorem ofPath_of_follow (path : List String) {moves : List Move} {s : Store}
    (h : Store.follow ⟨e, .ofPath path⟩ moves = .ok s) :
    ∃ final, pathAfter path moves = .ok final ∧ s = ⟨e, .ofPath final⟩ := by
  rw [follow_eq] at h
  obtain ⟨final, hfinal, rfl⟩ := ok_of_map h
  exact ⟨final, hfinal, rfl⟩

/-- The view of a table keeps the handle that it was made from. -/
theorem table_eq (e : Encoder) (path : List String) (table : String) :
    Store.table ⟨e, .ofPath path⟩ table =
      (validateName table).map fun _ => ⟨⟨e, .ofPath path⟩, table⟩ := by
  show (do let _ ← (Namespace.ofPath path).qualify table; return (⟨_, table⟩ : View)) = _
  rw [Namespace.qualify_ofPath]
  cases validateName table <;> rfl

/-- The shared buckets lie below a valid name. -/
theorem validName_sharedRoot : ValidName sharedRoot := by
  constructor <;> decide

/-- What goes on after a successful check has a valid name. -/
theorem ok_of_validated {α : Type} {name : String} {a b : α}
    (h : (do validateName name; return a : Except VaultError α) = .ok b) :
    ValidName name ∧ a = b := by
  obtain ⟨u, hv, h⟩ := ok_of_bind h
  exact ⟨validateName_eq_ok_iff.mp hv, Except.ok.inj h⟩

/-- One way leads from valid segments to valid segments. -/
theorem valid_of_move {next : List String} {m : Move} (hpath : ∀ s ∈ path, ValidName s)
    (h : m.path path = .ok next) : ∀ s ∈ next, ValidName s := by
  cases m with
  | clone => exact Except.ok.inj h ▸ hpath
  | sub name =>
    obtain ⟨hname, rfl⟩ := ok_of_validated h
    exact Spot.valid_iff.mpr ⟨hpath, hname⟩
  | bucket name =>
    obtain ⟨hname, rfl⟩ := ok_of_validated h
    simpa using ⟨validName_sharedRoot, hname⟩
  | table name =>
    obtain ⟨-, rfl⟩ := ok_of_validated h
    exact hpath

/-- Only valid segments are on the path to a handle. -/
theorem valid_of_pathAfter {final : List String} {moves : List Move}
    (hpath : ∀ s ∈ path, ValidName s) (h : pathAfter path moves = .ok final) :
    ∀ s ∈ final, ValidName s := by
  induction moves generalizing path with
  | nil => exact Except.ok.inj h ▸ hpath
  | cons m rest ih =>
    obtain ⟨next, hm, h⟩ := ok_of_bind h
    exact ih (valid_of_move hpath hm) h

/-- The path at the end of accepted segments is longer by these. -/
theorem pathAfter_sub {base final segments : List String}
    (h : pathAfter base (segments.map .sub) = .ok final) :
    final = base ++ segments ∧ ∀ s ∈ segments, ValidName s := by
  induction segments generalizing base with
  | nil =>
    obtain rfl := Except.ok.inj h
    simp
  | cons segment rest ih =>
    obtain ⟨next, hmove, h⟩ := ok_of_bind h
    obtain ⟨hsegment, rfl⟩ := ok_of_validated hmove
    obtain ⟨rfl, hrest⟩ := ih h
    refine ⟨List.append_assoc .., fun s hs => ?_⟩
    rcases List.mem_cons.mp hs with rfl | hs
    · exact hsegment
    · exact hrest s hs

/-- Accepted segments lead to the path that is longer by these. -/
theorem pathAfter_sub_of_valid {segments : List String} (base : List String)
    (h : ∀ s ∈ segments, ValidName s) : pathAfter base (segments.map .sub) = .ok (base ++ segments) := by
  induction segments generalizing base with
  | nil => rw [List.append_nil]; rfl
  | cons segment rest ih =>
    have hmove : (Move.sub segment).path base = .ok (base ++ [segment]) := by
      rw [Move.path, validateName_eq_ok_iff.mpr (h segment (by simp))]
      rfl
    have hrest := ih (base ++ [segment]) fun s hs => h s (by simp [hs])
    rw [List.append_assoc] at hrest
    rw [List.map_cons, pathAfter, hmove]
    exact hrest

/-- Every request to a table goes on after the same check, with a valid spot. -/
theorem Mirrors.onTable (hpath : ∀ s ∈ path, ValidName s) {α : Type} (g : α → Answer)
    (table : String) {f : String → Except VaultError α × Tables}
    {f' : Except VaultError Answer × Tree}
    (h : Spot.Valid (path, table) → Mirrors ts (mapAnswer g (f (Spot.name (path, table)))) f') :
    Mirrors ts (mapAnswer g (TableVault.guarded ts ((Namespace.ofPath path).qualify table) f))
      (TableVault.guarded (treeOf ts) (validateName table) fun _ => f') := by
  rw [mapAnswer_guarded]
  refine Mirrors.guarded (Namespace.qualify_ofPath path table) fun _ hvalid => h ?_
  exact Spot.valid_iff.mpr ⟨hpath, validateName_eq_ok_iff.mp hvalid⟩

/-- Storing content does to the tables what it does to the tree. -/
theorem Mirrors.put (hpath : ∀ s ∈ path, ValidName s) (table key : String) (content : Content)
    (encrypt : Bool) :
    Mirrors ts (mapAnswer (fun _ => .done)
        (Store.putEffect ⟨e, .ofPath path⟩ ts table key content encrypt))
      (TableVault.guarded (treeOf ts) (validateName table) fun _ =>
        (treeOf ts).store e (path, table) key content encrypt) := by
  refine Mirrors.onTable hpath _ table fun hspot => ?_
  rw [mapAnswer_guarded]
  refine Mirrors.guarded (g := id) (by cases e.encode content encrypt <;> rfl) fun record _ => ?_
  refine ⟨rfl, treeOf_put hspot key record, ?_⟩
  exact (Tables.getElem?_put ..).trans (if_neg (Spot.name_ne_systemTable hspot).symm)

/-- A request at the end of a path does to the tables what it does to the tree. -/
theorem Request.mirrors (hpath : ∀ s ∈ path, ValidName s) (request : Request) :
    Mirrors ts (request.effect ⟨e, .ofPath path⟩ ts) (request.onTree e path (treeOf ts)) := by
  cases request with
  | set table key content => exact Mirrors.put hpath table key content false
  | cryptSet table key content => exact Mirrors.put hpath table key content true
  | unset table key =>
    refine Mirrors.onTable hpath _ table fun hspot => ⟨rfl, treeOf_remove hspot key, ?_⟩
    exact (Tables.getElem?_remove ..).trans (if_neg (Spot.name_ne_systemTable hspot).symm)
  | drop table =>
    refine Mirrors.onTable hpath _ table fun hspot => ⟨rfl, treeOf_dropSubtree hspot, ?_⟩
    refine (Tables.getElem?_dropSubtree ..).trans ?_
    rw [Spot.not_inSubtree_name hspot]
    rfl
  | get table key shape =>
    refine Mirrors.onTable hpath _ table fun hspot => Mirrors.look ?_
    rw [Tree.content, recordsAt_treeOf hspot]
    rfl
  | rawGet table key =>
    refine Mirrors.onTable hpath _ table fun hspot => Mirrors.look ?_
    rw [recordsAt_treeOf hspot]
    rfl
  | contains table key =>
    refine Mirrors.onTable hpath _ table fun hspot => Mirrors.look ?_
    rw [recordsAt_treeOf hspot, ← Std.ExtTreeMap.isSome_getElem?_eq_contains]
    rfl
  | keys table =>
    refine Mirrors.onTable hpath _ table fun hspot => Mirrors.look ?_
    rw [recordsAt_treeOf hspot]
    rfl
  | countKeys table =>
    refine Mirrors.onTable hpath _ table fun hspot => Mirrors.look ?_
    rw [recordsAt_treeOf hspot]
    rfl
  | tables =>
    refine Mirrors.look ?_
    show Except.ok (Answer.names _) = _
    rw [childTables_names (plain_of_valid hpath)]
  | namespaces limitDepth =>
    refine Mirrors.look ?_
    show Except.ok (Answer.names _) = _
    rw [subNamespaces_names (plain_of_valid hpath)]

/-- A call does to the tables what it does to the tree. -/
theorem Call.mirrors (e : Encoder) (ts : Tables) (call : Call) :
    Mirrors ts (call.effect ⟨e, .root⟩ ts) (call.onTree e (treeOf ts)) := by
  cases call with
  | onStore moves request =>
    refine Mirrors.guarded (follow_eq e [] moves) fun path hpath => ?_
    exact Request.mirrors (valid_of_pathAfter (by simp) hpath) request
  | onView moves table request =>
    refine Mirrors.guarded (follow_eq e [] moves) fun path hpath => ?_
    refine Mirrors.guarded (table_eq e path table) fun _ _ => ?_
    exact Request.mirrors (valid_of_pathAfter (by simp) hpath) (request.onTable table)

/-! ### The refinement -/

section Refinement

variable {σ : Type} [Backend σ] [LawfulBackend σ]

/-- A call on an open storage is answered as by the tree, and leaves a storage that spells
    what the call leaves of the tree. -/
theorem Call.refines (hm : ¬ mortal σ) (e : Encoder) (call : Call) {s : σ}
    (hs : view s = some ts) :
    (outcome (call.run ⟨e, .root⟩) s).1 = (call.onTree e (treeOf ts)).1 ∧
      ∃ us, view (outcome (call.run ⟨e, .root⟩) s).2 = some us ∧
        treeOf us = (call.onTree e (treeOf ts)).2 ∧ us[systemTable]? = ts[systemTable]? := by
  obtain ⟨s', hrun, hview⟩ := (Call.runs ⟨e, .root⟩ ts call).outcome hm hs
  obtain ⟨hanswer, htree, hsystem⟩ := Call.mirrors e ts call
  rw [outcome_of_answering hrun]
  exact ⟨hanswer, _, hview, htree, hsystem⟩

/-- The answers to calls that are made one after another, and the storage at the end. -/
def Store.serve (top : Store) (calls : List Call) (s : σ) : List (Except VaultError Answer) × σ :=
  trace (fun call => outcome (call.run top)) calls s

/-- The answers of a tree to calls that are made one after another, and the tree at the
    end. -/
def Tree.serve (e : Encoder) (calls : List Call) (t : Tree) :
    List (Except VaultError Answer) × Tree :=
  trace (fun call t => call.onTree e t) calls t

/-- **The store refines a tree of namespaces.** Any calls on any open storage are answered
    as by the tree that its tables spell. The storage stays open and spells what the calls
    leave of the tree, and the system table is never touched. -/
theorem calls_refine_tree (hm : ¬ mortal σ) (e : Encoder) (calls : List Call) {s : σ}
    (hs : view s = some ts) :
    (Store.serve ⟨e, .root⟩ calls s).1 = (Tree.serve e calls (treeOf ts)).1 ∧
      ∃ us, view (Store.serve ⟨e, .root⟩ calls s).2 = some us ∧
        treeOf us = (Tree.serve e calls (treeOf ts)).2 ∧ us[systemTable]? = ts[systemTable]? := by
  refine trace_simulation (R := fun (s : σ) t => ∃ us, view s = some us ∧ treeOf us = t ∧
    us[systemTable]? = ts[systemTable]?) ?_ calls ⟨ts, hs, rfl, rfl⟩
  rintro call s _ ⟨us, hview, rfl, hsystem⟩
  obtain ⟨hanswer, vs, hview', htree, hsystem'⟩ := Call.refines hm e call hview
  exact ⟨hanswer, vs, hview', htree, hsystem'.trans hsystem⟩

end Refinement

/-- Fresh storage spells the empty tree. -/
theorem treeOf_empty : treeOf ∅ = ∅ := by
  apply Std.ExtTreeMap.ext_getElem?
  intro spot
  rw [getElem?_treeOf, Std.ExtTreeMap.getElem?_empty, Std.ExtTreeMap.getElem?_empty, ite_self]

/-- On fresh storage in memory a table of a bucket is found from elsewhere, and is still
    there when it is empty. -/
theorem calls_refine_tree_memory :
    (Store.serve ⟨.ofMaster ⟨.replicate Crypto.keySize 7, by decide⟩, .root⟩ [
      .onView [.sub "a", .bucket "b"] "t" (.set "k" (.value (.unsigned 5))),
      .onStore [.bucket "b", .clone] (.contains "t" "k"),
      .onStore [.sub sharedRoot, .sub "b"] .tables,
      .onStore [.bucket "b"] (.unset "t" "k"),
      .onStore [.table "t", .bucket "b"] .tables] Memory.empty).1 =
    [.ok .done, .ok (.truth true), .ok (.names ["t"]), .ok .done, .ok (.names ["t"])] := by
  have h := (calls_refine_tree (σ := Memory) (fun h => h)
    (.ofMaster ⟨.replicate Crypto.keySize 7, by decide⟩) [
      .onView [.sub "a", .bucket "b"] "t" (.set "k" (.value (.unsigned 5))),
      .onStore [.bucket "b", .clone] (.contains "t" "k"),
      .onStore [.sub sharedRoot, .sub "b"] .tables,
      .onStore [.bucket "b"] (.unset "t" "k"),
      .onStore [.table "t", .bucket "b"] .tables] (show view Memory.empty = some ∅ from rfl)).1
  rw [treeOf_empty] at h
  exact h.trans rfl

end TableVault
