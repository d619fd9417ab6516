import TableVault.Proofs.Store.Calls
import TableVault.Proofs.Tree.Path

namespace TableVault

open Storage Record

/-!
# Trees of namespaces

A vault without its backend: tables that are found by the path to their namespace and
their own name. No name is ever put together or taken apart here.

* `Tree` — the records of every table, by the spot of the table;
* `Tree.put`, `Tree.remove` and `Tree.drop` — the changes, each with what it leaves at a
  spot;
* `Tree.tables` and `Tree.namespaces` — the listings, each with what is in it and its
  order;
* `Request.onTree` and `Call.onTree` — what a call answers and leaves in a tree.
-/

/-- A tree of namespaces: the records of every table, by the spot of the table. -/
abbrev Tree := Std.ExtTreeMap Spot Records (lexOrd : Ord Spot).compare

namespace Tree

variable (t : Tree)

/-! ### Changes -/

/-- The records of a table, none if it does not exist. -/
def recordsAt (spot : Spot) : Records :=
  t.getD spot ∅

/-- Puts a record at a key of a table, which is created if it does not exist. -/
def put (spot : Spot) (key : String) (record : Bytes) : Tree :=
  t.insert spot ((t.recordsAt spot).insert key record)

/-- Removes the record at a key of a table. Nothing is created. -/
def remove (spot : Spot) (key : String) : Tree :=
  t.modify spot (·.erase key)

/-- Removes a table, and the namespace of the same name with all that lies in it. -/
def drop (base : Spot) : Tree :=
  t.filter fun spot _ => !base.segments.isPrefixOf spot.segments

/-- The records of a table are those found at its spot, or none. -/
theorem recordsAt_eq (spot : Spot) : t.recordsAt spot = t[spot]?.getD ∅ :=
  Std.ExtTreeMap.getD_eq_getD_getElem?

/-- A table that has been written to has its records, and all others what they had. -/
theorem getElem?_put (spot : Spot) (key : String) (record : Bytes) (other : Spot) :
    (t.put spot key record)[other]? =
      if other = spot then some ((t.recordsAt spot).insert key record) else t[other]? := by
  simp only [put, Std.ExtTreeMap.getElem?_insert, Std.LawfulEqCmp.compare_eq_iff_eq,
    eq_comm (a := spot)]

/-- Removing a record changes a table only if it is there. -/
theorem getElem?_remove (spot : Spot) (key : String) (other : Spot) :
    (t.remove spot key)[other]? =
      if other = spot then t[spot]?.map (·.erase key) else t[other]? := by
  simp only [remove, Std.ExtTreeMap.getElem?_modify, Std.LawfulEqCmp.compare_eq_iff_eq,
    eq_comm (a := spot)]

/-- Dropping a table takes away exactly what has its segments in front. -/
theorem getElem?_drop (base spot : Spot) :
    (t.drop base)[spot]? = if base.segments <+: spot.segments then none else t[spot]? := by
  rw [drop, Std.ExtTreeMap.getElem?_filter']
  by_cases h : base.segments <+: spot.segments
  · have htest : base.segments.isPrefixOf spot.segments = true := List.isPrefixOf_iff_prefix.mpr h
    rw [if_pos h]
    cases t[spot]? <;> simp [htest]
  · have htest : base.segments.isPrefixOf spot.segments = false := by
      rw [Bool.eq_false_iff, ne_eq, List.isPrefixOf_iff_prefix]
      exact h
    rw [if_neg h]
    cases t[spot]? <;> simp [htest]

section Membership

variable {t} {spot other base : Spot} {key : String}

/-- Writing to a table creates it, and no other. -/
theorem mem_put {record : Bytes} : other ∈ t.put spot key record ↔ other = spot ∨ other ∈ t := by
  rw [put, Std.ExtTreeMap.mem_insert, Std.LawfulEqCmp.compare_eq_iff_eq, eq_comm]

/-- Removing a record neither creates a table nor takes one away. -/
theorem mem_remove : other ∈ t.remove spot key ↔ other ∈ t :=
  Std.ExtTreeMap.mem_modify

/-- What is there after a drop was there before. -/
theorem mem_of_mem_drop (h : spot ∈ t.drop base) : spot ∈ t :=
  Std.ExtTreeMap.mem_of_mem_filter h

end Membership

/-! ### Listings -/

/-- The tables of a place. One without a name can only be made behind the back of all
    stores, and is not listed. -/
def tables (path : List String) : List String :=
  (t.keys.filter fun spot => spot.1 = path ∧ spot.2 ≠ "").map (·.2)

/-- The tables in namespaces below a place, by their segments from there on, in the order
    of the texts that these join to. -/
def below (path : List String) : List (List String) :=
  (t.keys.filterMap fun spot => (path.isPrefixOf? spot.segments).filter (2 ≤ ·.length)).mergeSort
    fun a b => joined a ≤ joined b

/-- What lies in namespaces below a place: the whole segments from there on, or the first
    of them, once. -/
def namespaces (path : List String) (limitDepth : Bool) : List String :=
  if limitDepth then ((t.below path).filterMap List.head?).eraseDups
  else (t.below path).map joined

/-- Exactly the tables at the path are listed. -/
theorem mem_tables {path : List String} {table : String} :
    table ∈ t.tables path ↔ (path, table) ∈ t ∧ table ≠ "" := by
  simp only [tables, List.mem_map, List.mem_filter, Std.ExtTreeMap.mem_keys, decide_eq_true_eq]
  constructor
  · rintro ⟨⟨_, _⟩, ⟨hmem, rfl, hne⟩, rfl⟩
    exact ⟨hmem, hne⟩
  · rintro ⟨hmem, hne⟩
    exact ⟨(path, table), ⟨hmem, rfl, hne⟩, rfl⟩

/-- Tables are listed in strictly increasing order. -/
theorem pairwise_tables (path : List String) : (t.tables path).Pairwise (· < ·) := by
  have hkeys : t.keys.Pairwise fun a b => (lexOrd : Ord Spot).compare a b = .lt :=
    Std.ExtTreeMap.ordered_keys
  rw [tables, List.pairwise_map]
  refine List.Pairwise.imp_of_mem ?_ (hkeys.filter _)
  rintro ⟨p, a⟩ ⟨q, b⟩ ha hb hlt
  have hpath : p = q := by
    rw [List.mem_filter, decide_eq_true_eq] at ha hb
    exact ha.2.1.trans hb.2.1.symm
  subst hpath
  -- The paths are the same, so the comparison is that of the table names.
  have hcompare : (lexOrd : Ord Spot).compare (p, a) (p, b) = compare a b := by
    show (compare p p).then (compare a b) = compare a b
    rw [show compare p p = .eq from Std.ReflCmp.compare_self]
    rfl
  exact compare_lt_iff_lt.mp (hcompare ▸ hlt)

/-- Exactly what lies in namespaces below the path is listed. -/
theorem mem_below {path back : List String} :
    back ∈ t.below path ↔ 2 ≤ back.length ∧ ∃ spot ∈ t, spot.segments = path ++ back := by
  simp only [below, List.mem_mergeSort, List.mem_filterMap, Std.ExtTreeMap.mem_keys,
    Option.filter_eq_some_iff, List.isPrefixOf?_eq_some_iff_append_eq, decide_eq_true_eq]
  constructor
  · rintro ⟨spot, hmem, hsplit, hlen⟩
    exact ⟨hlen, spot, hmem, hsplit.symm⟩
  · rintro ⟨hlen, spot, hmem, hsplit⟩
    exact ⟨spot, hmem, hsplit.symm, hlen⟩

/-- The listed segments increase strictly when they are joined. -/
theorem pairwise_below (ht : ∀ spot ∈ t, Plain spot.segments) (path : List String) :
    ((t.below path).map joined).Pairwise (· < ·) := by
  -- Sorted by their texts, and none of them twice; joining tells them apart.
  have hsorted : (t.below path).Pairwise fun a b => decide (joined a ≤ joined b) = true :=
    List.pairwise_mergeSort
      (fun a b c hab hbc => by simp only [decide_eq_true_eq] at *; exact hab.trans hbc)
      (fun a b => by simpa using le_total (joined a) (joined b)) _
  have hnodup : (t.below path).Nodup := by
    rw [below, (List.mergeSort_perm _ _).nodup_iff]
    have hkeys : t.keys.Nodup := Std.ExtTreeMap.nodup_keys
    refine hkeys.filterMap ?_
    simp only [Option.mem_def, Option.filter_eq_some_iff, List.isPrefixOf?_eq_some_iff_append_eq]
    rintro a b back ⟨ha, -⟩ ⟨hb, -⟩
    exact Spot.segments_inj (ha.symm.trans hb)
  have hplain : ∀ back ∈ t.below path, back ≠ [] ∧ Plain back := by
    intro back hback
    obtain ⟨hlen, spot, hmem, hsplit⟩ := t.mem_below.mp hback
    exact ⟨List.ne_nil_of_length_pos (by omega),
      fun s hs => ht spot hmem s (by simp [hsplit, hs])⟩
  rw [List.pairwise_map]
  refine List.Pairwise.imp_of_mem ?_ (hsorted.and hnodup)
  rintro a b ha hb ⟨hle, hne⟩
  refine lt_of_le_of_ne (by simpa using hle) fun heq => hne ?_
  rw [← segmentsOf_joined (hplain a ha).1 (hplain a ha).2, heq,
    segmentsOf_joined (hplain b hb).1 (hplain b hb).2]

/-- No element is left twice once the duplicates have been erased. -/
theorem nodup_eraseDups (names : List String) : names.eraseDups.Nodup := by
  cases names with
  | nil => exact List.nodup_nil
  | cons name rest =>
    rw [List.eraseDups_cons, List.nodup_cons, List.mem_eraseDups]
    refine ⟨by simp, ?_⟩
    have hshorter := List.length_filter_le (fun other => !other == name) rest
    exact nodup_eraseDups (rest.filter fun other => !other == name)
  termination_by names.length

/-- Every namespace is listed once. -/
theorem nodup_namespaces_limited (path : List String) : (t.namespaces path true).Nodup := by
  rw [namespaces, if_pos rfl]
  exact nodup_eraseDups _

/-- A namespace is listed exactly if there is a table somewhere in it. -/
theorem mem_namespaces_limited {path : List String} {name : String} :
    name ∈ t.namespaces path true ↔
      ∃ rest, rest ≠ [] ∧ ∃ spot ∈ t, spot.segments = path ++ name :: rest := by
  rw [namespaces, if_pos rfl, List.mem_eraseDups, List.mem_filterMap]
  constructor
  · rintro ⟨back, hback, hhead⟩
    obtain ⟨hlen, hspot⟩ := t.mem_below.mp hback
    have hne : back ≠ [] := List.ne_nil_of_length_pos (by omega)
    obtain ⟨s, rest, rfl⟩ := List.exists_cons_of_ne_nil hne
    obtain rfl : s = name := by simpa using hhead
    rw [List.length_cons] at hlen
    exact ⟨rest, List.ne_nil_of_length_pos (by omega), hspot⟩
  · rintro ⟨rest, hrest, hspot⟩
    refine ⟨name :: rest, t.mem_below.mpr ⟨?_, hspot⟩, rfl⟩
    have hlen := List.length_pos_of_ne_nil hrest
    rw [List.length_cons]
    omega

end Tree

/-! ### Calls -/

/-- The path to the handle at the end of a way. -/
def Move.path (path : List String) : Move → Except VaultError (List String)
  | .clone => .ok path
  | .sub name => do validateName name; return path ++ [name]
  | .bucket name => do validateName name; return [sharedRoot, name]
  | .table name => do validateName name; return path

/-- The path to the handle at the end of several ways, one after another. -/
def pathAfter (path : List String) : List Move → Except VaultError (List String)
  | [] => .ok path
  | m :: rest => do pathAfter (← m.path path) rest

namespace Tree

variable (t : Tree)

/-- What storing content at a table answers and leaves. -/
def store (e : Encoder) (spot : Spot) (key : String) (content : Content) (encrypt : Bool) :
    Except VaultError Answer × Tree :=
  guarded t ((e.encode content encrypt).mapError .codec) fun record =>
    (.ok .done, t.put spot key record)

/-- The content at a key of a table, read as a shape. -/
def content (e : Encoder) (spot : Spot) (key : String) (shape : Cbor.Shape) :
    Except VaultError (Option shape.Carrier) :=
  match (t.recordsAt spot)[key]? with
  | some record => (e.decode shape record).mapError .codec
  | none => .ok none

end Tree

/-- What a request answers and leaves in a tree that is made at the end of a path. -/
def Request.onTree (e : Encoder) (path : List String) (t : Tree) :
    Request → Except VaultError Answer × Tree
  | .set table key content =>
    guarded t (validateName table) fun _ => t.store e (path, table) key content false
  | .cryptSet table key content =>
    guarded t (validateName table) fun _ => t.store e (path, table) key content true
  | .unset table key =>
    guarded t (validateName table) fun _ => (.ok .done, t.remove (path, table) key)
  | .drop table => guarded t (validateName table) fun _ => (.ok .done, t.drop (path, table))
  | .get table key shape =>
    guarded t (validateName table) fun _ =>
      ((t.content e (path, table) key shape).map (.content shape), t)
  | .rawGet table key =>
    guarded t (validateName table) fun _ => (.ok (.record (t.recordsAt (path, table))[key]?), t)
  | .contains table key =>
    guarded t (validateName table) fun _ =>
      (.ok (.truth ((t.recordsAt (path, table)).contains key)), t)
  | .keys table =>
    guarded t (validateName table) fun _ => (.ok (.names (t.recordsAt (path, table)).keys), t)
  | .countKeys table =>
    guarded t (validateName table) fun _ => (.ok (.count (t.recordsAt (path, table)).size), t)
  | .tables => (.ok (.names (t.tables path)), t)
  | .namespaces limitDepth => (.ok (.names (t.namespaces path limitDepth)), t)

/-- What a call answers and leaves in a tree. -/
def Call.onTree (e : Encoder) (t : Tree) : Call → Except VaultError Answer × Tree
  | .onStore moves request => guarded t (pathAfter [] moves) fun path => request.onTree e path t
  | .onView moves table request =>
    guarded t (pathAfter [] moves) fun path =>
      guarded t (validateName table) fun _ => (request.onTable table).onTree e path t

end TableVault
