import TableVault.Proofs.Tree.Model
import TableVault.Proofs.Tree.Routing

namespace TableVault

open Storage

/-!
# Walking through the tree of namespaces

A client that wants to see every table asks a place for its tables and for the namespaces right
below it, and goes on from each of these.

* `Namespace.walk` — the backend names that such a client comes by, or the error that it runs
  into. Stems grow on the way down and none grows longer than the names do, so a walk ends
  whatever the names are (`Namespace.unwalked_lt`);
* `Spelled` — a backend name that a store can have made;
* `Namespace.mem_childTables` and `Namespace.mem_subNamespaces_limited` — what a place lists,
  told by the segments of the names;
* `Visits` — a list has the names that begin with the stem of a place, each of them once;
* `Namespace.walk_ofPath` — a walk visits what is at its place and what is below, since what is
  below one namespace is not below another one;
* `walk_visits_once` — from every place at an accepted path.
-/

/-! ### The walk -/

namespace Namespace

/-- A first segment with something behind it is shorter than the whole. -/
theorem length_firstSegment_lt {rest : String} (h : isNested rest = true) :
    (firstSegment rest).length < rest.length := by
  have hsep : separator ∈ rest.toList := by simpa [isNested] using h
  have hback : rest.toList.dropWhile (· ≠ separator) ≠ [] := by
    intro hnil
    rw [List.dropWhile_eq_nil_iff] at hnil
    simpa using hnil separator hsep
  have hsplit := congrArg List.length
    (List.takeWhile_append_dropWhile (p := (· ≠ separator)) (l := rest.toList))
  rw [List.length_append] at hsplit
  have hpos := List.length_pos_of_ne_nil hback
  rw [firstSegment, String.length_ofList, ← String.length_toList]
  omega

/-- How much longer than a stem the names are, taken together. -/
def unwalked (names : List String) (ns : Namespace) : Nat :=
  (names.map String.length).sum - ns.stem.length

/-- One segment further down there is less left of the names. -/
theorem unwalked_lt {names : List String} {ns next : Namespace} {child : String}
    (hchild : child ∈ ns.subNamespaces true names) (hnext : ns.sub child = .ok next) :
    next.unwalked names < ns.unwalked names := by
  rw [subNamespaces, if_pos rfl, List.mem_eraseDups, List.mem_map] at hchild
  obtain ⟨rest, hrest, rfl⟩ := hchild
  rw [List.mem_filter, List.mem_filterMap] at hrest
  obtain ⟨⟨name, hname, hrelative⟩, hnested⟩ := hrest
  obtain ⟨-, rfl⟩ := relative?_eq_some_iff.mp hrelative
  have hstem : next.stem.length = ns.stem.length + ((firstSegment rest).length + 1) := by
    obtain ⟨-, -, hnext⟩ := ok_of_bind hnext
    rw [← Except.ok.inj hnext]
    simp [terminated]
  -- The new stem is still no longer than the name that it was read off.
  have hfirst := length_firstSegment_lt hnested
  have hsum := List.le_sum_of_mem (List.mem_map_of_mem (f := String.length) hname)
  rw [String.length_append] at hsum
  rw [unwalked, unwalked]
  omega

/-- The backend names of the tables of a place, and then those of everything below it, one
    namespace after another. -/
def walk (names : List String) (ns : Namespace) : Except VaultError (List String) := do
  let own ← (ns.childTables names).mapM ns.qualify
  let below ← (ns.subNamespaces true names).attach.mapM fun child =>
    match _hnext : ns.sub child.val with
    | .ok next => walk names next
    | .error e => .error e
  return own ++ below.flatten
termination_by ns.unwalked names
decreasing_by exact unwalked_lt child.property ‹_›

/-- A walk goes on below a place through the handles that the place gives. -/
theorem walk_eq (names : List String) (ns : Namespace) :
    ns.walk names = do
      let own ← (ns.childTables names).mapM ns.qualify
      let below ← (ns.subNamespaces true names).mapM fun child => do (← ns.sub child).walk names
      return own ++ below.flatten := by
  rw [walk, ← List.attach_map_subtype_val (ns.subNamespaces true names), List.mapM_map,
    List.attach_map_subtype_val]
  refine bind_congr fun own => congrArg (· >>= _) ?_
  refine congrArg (List.mapM · _) (funext fun child => ?_)
  -- The handle below is looked at before the walk goes on, so that the walk is seen to end.
  show _ = do (← ns.sub child.val).walk names
  split
  · next next hnext => rw [hnext]; rfl
  · next e herror => rw [herror]; rfl

end Namespace

/-! ### What a place lists -/

/-- A name that spells a table with accepted names, one inside another. -/
def Spelled (name : String) : Prop :=
  ∃ segments, segments ≠ [] ∧ Accepted segments ∧ name = joined segments

/-- The segments of a name that spells a table are accepted. -/
theorem Spelled.valid {name : String} (h : Spelled name) : ∀ s ∈ segmentsOf name, ValidName s := by
  obtain ⟨segments, hne, haccepted, rfl⟩ := h
  rw [accepted_iff] at haccepted
  rwa [segmentsOf_joined hne (plain_of_valid haccepted)]

namespace Namespace

variable {names : List String} {path : List String} (hpath : Plain path)

include hpath

/-- A name begins with the stem of a place if its segments go on from the path. -/
theorem stem_prefix_iff {name : String} :
    (ofPath path).stem.toList <+: name.toList ↔
      ∃ back, back ≠ [] ∧ segmentsOf name = path ++ back := by
  constructor
  · rintro ⟨rest, hrest⟩
    have hname : name = (ofPath path).stem ++ String.ofList rest :=
      String.toList_inj.mp (by rw [String.toList_append, String.toList_ofList, hrest])
    refine ⟨segmentsOf (String.ofList rest), segmentsOf_ne_nil _, ?_⟩
    rw [hname, segmentsOf_stem_append hpath]
  · rintro ⟨back, hne, hsegments⟩
    rw [← joined_segmentsOf name, hsegments, ← stem_append_joined path hne, String.toList_append]
    exact List.prefix_append _ _

/-- What a name that spells a table has after the stem of a place. -/
theorem relative?_eq_some_iff_segmentsOf {name rest : String} (hname : Spelled name) :
    (ofPath path).relative? name = some rest ↔
      ∃ back, back ≠ [] ∧ segmentsOf name = path ++ back ∧ rest = joined back := by
  have hplain : Plain (Spot.ofName name).segments := by
    rw [Spot.segments_ofName]
    exact plain_segmentsOf name
  rw [← Spot.name_ofName name, relative?_name_iff hpath hplain, Spot.segments_ofName,
    Spot.name_ofName]
  constructor
  · rintro ⟨back, hne, -, hsegments, hrest⟩
    exact ⟨back, hne, hsegments, hrest⟩
  · rintro ⟨back, hne, hsegments, hrest⟩
    refine ⟨back, hne, ?_, hsegments, hrest⟩
    rintro rfl
    exact (hname.valid "" (by simp [hsegments])).1 rfl

variable (hnames : ∀ name ∈ names, Spelled name)

include hnames

/-- A place lists the tables whose names have one segment more than its path. -/
theorem mem_childTables {table : String} :
    table ∈ (ofPath path).childTables names ↔
      ∃ name ∈ names, segmentsOf name = path ++ [table] := by
  rw [childTables, List.mem_filter, List.mem_filterMap]
  constructor
  · rintro ⟨⟨name, hname, hrelative⟩, hnested⟩
    obtain ⟨back, hne, hsegments, rfl⟩ :=
      (relative?_eq_some_iff_segmentsOf hpath (hnames name hname)).mp hrelative
    obtain ⟨s, rest, rfl⟩ := List.exists_cons_of_ne_nil hne
    have hs : separator ∉ s.toList := plain_segmentsOf name s (by simp [hsegments])
    rw [isNested_joined hs] at hnested
    obtain rfl : rest = [] := by simpa using hnested
    refine ⟨name, hname, ?_⟩
    rw [hsegments, show joined [s] = s from String.ofList_toList]
  · rintro ⟨name, hname, hsegments⟩
    have htable : separator ∉ table.toList := plain_segmentsOf name table (by simp [hsegments])
    have hjoined : joined [table] = table := String.ofList_toList
    refine ⟨⟨name, hname, ?_⟩, ?_⟩
    · rw [relative?_eq_some_iff_segmentsOf hpath (hnames name hname)]
      exact ⟨[table], by simp, hsegments, hjoined.symm⟩
    · have hnested := isNested_joined htable []
      rw [hjoined] at hnested
      rw [hnested]
      rfl

/-- A place lists the namespaces below it that some name goes through. -/
theorem mem_subNamespaces_limited {child : String} :
    child ∈ (ofPath path).subNamespaces true names ↔
      ∃ name ∈ names, ∃ rest, rest ≠ [] ∧ segmentsOf name = path ++ child :: rest := by
  rw [subNamespaces, if_pos rfl, List.mem_eraseDups, List.mem_map]
  constructor
  · rintro ⟨rest, hrest, rfl⟩
    rw [List.mem_filter, List.mem_filterMap] at hrest
    obtain ⟨⟨name, hname, hrelative⟩, hnested⟩ := hrest
    obtain ⟨back, hne, hsegments, rfl⟩ :=
      (relative?_eq_some_iff_segmentsOf hpath (hnames name hname)).mp hrelative
    obtain ⟨s, rest, rfl⟩ := List.exists_cons_of_ne_nil hne
    have hs : separator ∉ s.toList := plain_segmentsOf name s (by simp [hsegments])
    rw [isNested_joined hs] at hnested
    rw [firstSegment_joined hs]
    exact ⟨name, hname, rest, by simpa using hnested, hsegments⟩
  · rintro ⟨name, hname, rest, hne, hsegments⟩
    have hchild : separator ∉ child.toList := plain_segmentsOf name child (by simp [hsegments])
    refine ⟨joined (child :: rest), ?_, firstSegment_joined hchild rest⟩
    rw [List.mem_filter, List.mem_filterMap, isNested_joined hchild]
    refine ⟨⟨name, hname, ?_⟩, by simpa using hne⟩
    rw [relative?_eq_some_iff_segmentsOf hpath (hnames name hname)]
    exact ⟨child :: rest, by simp, hsegments, rfl⟩

end Namespace

/-! ### What a walk visits -/

/-- A list has the names that begin with the stem of a place, each of them once, and no others. -/
structure Visits (names : List String) (ns : Namespace) (out : List String) : Prop where
  nodup : out.Nodup
  mem_iff : ∀ name, name ∈ out ↔ name ∈ names ∧ ns.stem.toList <+: name.toList

/-- A list is gone through without an error if no member gives one. -/
theorem mapM_eq_ok {α β : Type} {f : α → Except VaultError β} {g : α → β} {xs : List α}
    (h : ∀ x ∈ xs, f x = .ok (g x)) : xs.mapM f = .ok (xs.map g) := by
  induction xs with
  | nil => rfl
  | cons x xs ih =>
    rw [List.mapM_cons, h x (by simp), ih fun y hy => h y (by simp [hy])]
    rfl

namespace Namespace

variable {names path : List String} (hpath : Plain path) (hnames : ∀ name ∈ names, Spelled name)

include hpath hnames

/-- The tables that a place lists have valid names. -/
theorem qualify_childTables :
    ((ofPath path).childTables names).mapM (ofPath path).qualify =
      .ok (((ofPath path).childTables names).map ((ofPath path).stem ++ ·)) := by
  refine mapM_eq_ok fun table htable => ?_
  obtain ⟨name, hname, hsegments⟩ := (mem_childTables hpath hnames).mp htable
  have hvalid : ValidName table := (hnames name hname).valid table (by simp [hsegments])
  rw [qualify, validateName_eq_ok_iff.mpr hvalid]
  rfl

/-- The backend names of the tables of a place have one segment more than its path. -/
theorem mem_map_childTables {name : String} :
    name ∈ ((ofPath path).childTables names).map ((ofPath path).stem ++ ·) ↔
      name ∈ names ∧ ∃ table, segmentsOf name = path ++ [table] := by
  have hspell : ∀ {name table}, segmentsOf name = path ++ [table] →
      (ofPath path).stem ++ table = name := by
    intro name table hsegments
    rw [← joined_segmentsOf name, hsegments, ← stem_append_joined path (by simp)]
    exact congrArg _ String.ofList_toList.symm
  rw [List.mem_map]
  constructor
  · rintro ⟨table, htable, rfl⟩
    obtain ⟨other, hother, hsegments⟩ := (mem_childTables hpath hnames).mp htable
    rw [hspell hsegments]
    exact ⟨hother, table, hsegments⟩
  · rintro ⟨hname, table, hsegments⟩
    exact ⟨table, (mem_childTables hpath hnames).mpr ⟨name, hname, hsegments⟩, hspell hsegments⟩

/-- The path to a namespace that a place lists has no separator in its segments. -/
theorem plain_concat_child {child : String} (h : child ∈ (ofPath path).subNamespaces true names) :
    Plain (path ++ [child]) := by
  obtain ⟨name, -, rest, -, hsegments⟩ := (mem_subNamespaces_limited hpath hnames).mp h
  intro s hs
  refine plain_segmentsOf name s ?_
  simp only [List.mem_append, List.mem_singleton] at hs
  simp only [hsegments, List.mem_append, List.mem_cons]
  exact hs.imp_right .inl

/-- What is below a namespace that a place lists goes through it and on. -/
theorem Visits.mem_iff_of_child {child : String} {out : List String}
    (h : child ∈ (ofPath path).subNamespaces true names)
    (hout : Visits names (ofPath (path ++ [child])) out) {name : String} :
    name ∈ out ↔ name ∈ names ∧ ∃ rest, rest ≠ [] ∧ segmentsOf name = path ++ child :: rest := by
  rw [hout.mem_iff, stem_prefix_iff (plain_concat_child hpath hnames h)]
  simp only [List.append_assoc, List.singleton_append]

omit hpath hnames in
/-- A place lists every namespace below it once. -/
theorem nodup_subNamespaces_limited (ns : Namespace) (names : List String) :
    (ns.subNamespaces true names).Nodup :=
  Tree.nodup_eraseDups _

omit hpath hnames in
/-- A place lists every table once, if no name is there twice. -/
theorem nodup_map_childTables (ns : Namespace) (hnodup : names.Nodup) :
    ((ns.childTables names).map (ns.stem ++ ·)).Nodup := by
  have htables : (ns.childTables names).Nodup := by
    refine (hnodup.filterMap fun a b rest ha hb => ?_).filter _
    rw [(relative?_eq_some_iff.mp ha).2, (relative?_eq_some_iff.mp hb).2]
  exact htables.map fun a b heq => (String.append_right_inj ns.stem).mp heq

/-- **From the namespaces to the place.** The tables of a place and what its namespaces are
    visited with make up what the place is visited with. -/
theorem visits_of_children (hnodup : names.Nodup) {below : String → List String}
    (hbelow : ∀ child ∈ (ofPath path).subNamespaces true names,
      Visits names (ofPath (path ++ [child])) (below child)) :
    Visits names (ofPath path)
      (((ofPath path).childTables names).map ((ofPath path).stem ++ ·) ++
        ((ofPath path).subNamespaces true names).flatMap below) := by
  have hchild : ∀ {child name}, child ∈ (ofPath path).subNamespaces true names →
      (name ∈ below child ↔
        name ∈ names ∧ ∃ rest, rest ≠ [] ∧ segmentsOf name = path ++ child :: rest) :=
    fun h => Visits.mem_iff_of_child hpath hnames h (hbelow _ h)
  refine ⟨List.nodup_append.mpr ⟨nodup_map_childTables _ hnodup,
    List.nodup_flatMap.mpr ⟨fun child h => (hbelow child h).nodup, ?_⟩, ?_⟩, fun name => ?_⟩
  · -- No name goes through two namespaces.
    refine (nodup_subNamespaces_limited _ _).imp_of_mem fun {a b} ha hb hne name hna hnb => hne ?_
    obtain ⟨-, resta, -, hsega⟩ := (hchild ha).mp hna
    obtain ⟨-, restb, -, hsegb⟩ := (hchild hb).mp hnb
    rw [hsega] at hsegb
    exact (List.cons.inj (List.append_cancel_left hsegb)).1
  · -- No table of the place is in a namespace below.
    rintro name hown _ hbelow rfl
    obtain ⟨-, table, hsegments⟩ := (mem_map_childTables hpath hnames).mp hown
    obtain ⟨child, hmem, hname⟩ := List.mem_flatMap.mp hbelow
    obtain ⟨-, rest, hne, hsegments'⟩ := (hchild hmem).mp hname
    rw [hsegments] at hsegments'
    exact hne (List.cons.inj (List.append_cancel_left hsegments')).2.symm
  · rw [List.mem_append, mem_map_childTables hpath hnames, List.mem_flatMap, stem_prefix_iff hpath]
    constructor
    · rintro (⟨hname, table, hsegments⟩ | ⟨child, hmem, hname⟩)
      · exact ⟨hname, [table], by simp, hsegments⟩
      · obtain ⟨hname, rest, -, hsegments⟩ := (hchild hmem).mp hname
        exact ⟨hname, child :: rest, by simp, hsegments⟩
    · rintro ⟨hname, back, hback, hsegments⟩
      obtain ⟨s, rest, rfl⟩ := List.exists_cons_of_ne_nil hback
      -- One segment more is a table of the place, and several go through a namespace.
      by_cases hrest : rest = []
      · exact .inl ⟨hname, s, by rw [hsegments, hrest]⟩
      · have hmem :=
          (mem_subNamespaces_limited hpath hnames).mpr ⟨name, hname, rest, hrest, hsegments⟩
        exact .inr ⟨s, hmem, (hchild hmem).mpr ⟨hname, rest, hrest, hsegments⟩⟩

omit hpath in
/-- **A walk visits its place.** It runs into no error, since the names that it goes down by are
    segments of accepted ones. -/
theorem walk_ofPath (hnodup : names.Nodup) (hpath : Accepted path) :
    ∃ out, (ofPath path).walk names = .ok out ∧ Visits names (ofPath path) out := by
  -- The induction is on what is left of the names behind the stem.
  induction hn : (ofPath path).unwalked names using Nat.strong_induction_on generalizing path with
  | _ n ih =>
    have hplain : Plain path := plain_of_valid (accepted_iff.mp hpath)
    have hnext : ∀ child ∈ (ofPath path).subNamespaces true names,
        ∃ out, (do (← (ofPath path).sub child).walk names) = .ok out ∧
          Visits names (ofPath (path ++ [child])) out := by
      intro child hchild
      obtain ⟨name, hname, rest, -, hsegments⟩ :=
        (mem_subNamespaces_limited hplain hnames).mp hchild
      have haccepted : validateName child = .ok () :=
        validateName_eq_ok_iff.mpr ((hnames name hname).valid child (by simp [hsegments]))
      have hsub : (ofPath path).sub child = .ok (ofPath (path ++ [child])) := by
        rw [sub_ofPath, haccepted]
        rfl
      have hpath' : Accepted (path ++ [child]) := by
        intro s hs
        rcases List.mem_append.mp hs with hs | hs
        · exact hpath s hs
        · rwa [List.mem_singleton.mp hs]
      rw [hsub]
      exact ih _ (hn ▸ unwalked_lt hchild hsub) hpath' rfl
    choose! below hwalk hvisits using hnext
    refine ⟨_, ?_, visits_of_children hplain hnames hnodup hvisits⟩
    rw [walk_eq, qualify_childTables hplain hnames, mapM_eq_ok hwalk, List.flatMap_def]
    rfl

end Namespace

/-- **Walking visits every table once.** Take backend names that stores can have made, none of
    them twice, and a place at a path of accepted names. A walk from there ends without an error,
    and comes by every name that begins with the stem of the place, once, and by no other. -/
theorem walk_visits_once {names path : List String} (hnodup : names.Nodup)
    (hnames : ∀ name ∈ names, Spelled name) (hpath : Accepted path) :
    ∃ ns out, Namespace.reach path = .ok ns ∧ ns.walk names = .ok out ∧ out.Nodup ∧
      ∀ name, name ∈ out ↔ name ∈ names ∧ ns.stem.toList <+: name.toList := by
  obtain ⟨out, hwalk, hvisits⟩ := Namespace.walk_ofPath hnames hnodup hpath
  exact ⟨_, out, Namespace.reach_eq hpath, hwalk, hvisits.nodup, hvisits.mem_iff⟩

/-- A table that has the name of a namespace, another namespace whose name begins alike, and two
    tables below one namespace: from the namespace, a walk comes by its two tables only. -/
theorem walk_visits_once_sibling :
    ∃ ns out, Namespace.reach ["a"] = .ok ns ∧
      ns.walk ["a", "a\u001fb\u001fx", "a\u001fb", "ab\u001fx"] = .ok out ∧
      out.Perm ["a\u001fb\u001fx", "a\u001fb"] := by
  have hspelled : ∀ name ∈ ["a", "a\u001fb\u001fx", "a\u001fb", "ab\u001fx"], Spelled name := by
    intro name hname
    refine ⟨segmentsOf name, segmentsOf_ne_nil name, ?_, (joined_segmentsOf name).symm⟩
    unfold Accepted
    revert name
    decide
  have hpath : Accepted ["a"] := by
    unfold Accepted
    decide
  obtain ⟨ns, out, hreach, hwalk, hnodup, hmem⟩ := walk_visits_once (by decide) hspelled hpath
  refine ⟨ns, out, hreach, hwalk,
    (List.perm_ext_iff_of_nodup hnodup (by decide)).mpr fun name => ?_⟩
  obtain rfl : ns = ⟨"a\u001f"⟩ := by
    rw [Namespace.reach_eq hpath] at hreach
    rw [← Except.ok.inj hreach]
    rfl
  rw [hmem]
  constructor
  · rintro ⟨hname, hprefix⟩
    revert name
    decide
  · revert name
    decide

end TableVault
