import TableVault.Proofs.Inspect.Listings

namespace TableVault

open Storage Record

/-!
# Finding the way with what is listed

What lies below a place is listed with slashes between the segments, and a path is cut at its
slashes. Names may have slashes of their own, and nothing tells these from the others.

* `slashed` and `Slashless` — segments as they are listed, and segments without slashes;
* `Inspect.withSlashes_joined` — the backend names are listed as their segments;
* `Inspect.pathSegments_slashed` and `Inspect.pathSegments_eq_singleton_iff` — segments without
  slashes are got back, and no others;
* `Ledger.Spells.child_of_listed` and `Ledger.Spells.table_of_listed` — the way to a namespace
  that is listed, and to a table;
* `listed_namespaces_lead_down` — what is listed below a place leads there if no name on the way
  has a slash;
* `slashes_mislead` — and else it may not.
-/

/-! ### Slashes -/

/-- Segments as they are listed, with slashes between them. -/
def slashed (segments : List String) : String :=
  String.ofList (join '/' (segments.map String.toList))

/-- Segments without slashes. -/
def Slashless (segments : List String) : Prop := ∀ s ∈ segments, '/' ∉ s.toList

/-- A single segment is listed as it is. -/
theorem slashed_singleton (s : String) : slashed [s] = s := String.ofList_toList

/-- Cutting at the slashes gives segments without slashes back. -/
theorem pieces_slashed {segments : List String} (hne : segments ≠ []) (h : Slashless segments) :
    pieces '/' (slashed segments).toList = segments.map String.toList := by
  rw [slashed, String.toList_ofList]
  refine pieces_join (by simpa using hne) fun p hp => ?_
  obtain ⟨s, hs, rfl⟩ := List.mem_map.mp hp
  exact h s hs

/-- The last segment stands behind the last of the slashes that are put in. -/
theorem slashed_concat {front : List String} (h : front ≠ []) (s : String) :
    slashed (front ++ [s]) = slashed front ++ "/" ++ s := by
  have hjoin : join '/' ((front ++ [s]).map String.toList) =
      join '/' (front.map String.toList) ++ '/' :: s.toList := by
    rw [List.map_append]
    exact join_append '/' (by simpa using h) (List.cons_ne_nil _ _)
  refine String.toList_inj.mp ?_
  rw [slashed, String.toList_ofList, hjoin, slashed]
  simp [String.toList_append]

namespace Inspect

/-- Characters other than the separator are listed as they are. -/
theorem map_withSlashes_of_not_mem {cs : List Char} (h : separator ∉ cs) :
    (cs.map fun c => if c = separator then '/' else c) = cs := by
  refine (List.map_congr_left fun c hc => ?_).trans (List.map_id cs)
  exact if_neg fun heq : c = separator => h (heq ▸ hc)

/-- A name without a separator is listed as it is. -/
theorem withSlashes_of_plain {name : String} (h : separator ∉ name.toList) :
    withSlashes name = name := by
  rw [withSlashes, map_withSlashes_of_not_mem h, String.ofList_toList]

/-- Joined segments are listed with slashes between them. -/
theorem withSlashes_joined {segments : List String} (h : Plain segments) :
    withSlashes (joined segments) = slashed segments := by
  rw [withSlashes, joined, String.toList_ofList, map_join, if_pos rfl, slashed, List.map_map]
  refine congrArg (fun ps => String.ofList (join '/' ps)) (List.map_congr_left fun s hs => ?_)
  exact map_withSlashes_of_not_mem (h s hs)

/-- Segments without slashes are got back from a path. -/
theorem pathSegments_slashed {segments : List String} (hvalid : ∀ s ∈ segments, ValidName s)
    (h : Slashless segments) : pathSegments (slashed segments) = segments := by
  by_cases hne : segments = []
  · rw [hne]
    decide
  · have hkept : (segments.map String.toList).filter (· ≠ []) = segments.map String.toList := by
      refine List.filter_eq_self.mpr fun p hp => ?_
      obtain ⟨s, hs, rfl⟩ := List.mem_map.mp hp
      simpa using (hvalid s hs).1
    rw [pathSegments, pieces_slashed hne h, hkept, map_ofList_toList]

/-- The segments of a path have no slashes. -/
theorem slashless_pathSegments (path : String) : Slashless (pathSegments path) := by
  intro s hs
  obtain ⟨p, hp, rfl⟩ := List.mem_map.mp hs
  rw [String.toList_ofList]
  exact not_mem_of_mem_pieces (List.mem_filter.mp hp).1

/-- A name is a single segment of a path exactly if it has no slash. -/
theorem pathSegments_eq_singleton_iff {name : String} (h : ValidName name) :
    pathSegments name = [name] ↔ '/' ∉ name.toList := by
  constructor
  · intro hsegments
    exact slashless_pathSegments name name (by simp [hsegments])
  · intro hslash
    have hslashless : Slashless [name] := by simpa [Slashless] using hslash
    have hsegments := pathSegments_slashed (by simpa using h) hslashless
    rwa [slashed_singleton] at hsegments

/-- Segments without slashes are told apart by how they are listed. -/
theorem slashed_inj {a b : List String} (hvalid : ∀ s ∈ a ++ b, ValidName s) (ha : Slashless a)
    (hb : Slashless b) (h : slashed a = slashed b) : a = b := by
  rw [← pathSegments_slashed (fun s hs => hvalid s (by simp [hs])) ha, h,
    pathSegments_slashed (fun s hs => hvalid s (by simp [hs])) hb]

/-- Going down a valid name leads to the namespace of this name exactly if it has no slash. -/
theorem descend_eq_sub_iff {e : Encoder} {final : List String} (hfinal : ∀ s ∈ final, ValidName s)
    {name : String} (hname : ValidName name) :
    descend ⟨e, .ofPath final⟩ (some name) = .ok ⟨e, .ofPath (final ++ [name])⟩ ↔
      '/' ∉ name.toList := by
  rw [← pathSegments_eq_singleton_iff hname]
  constructor
  · intro h
    obtain ⟨hplace, hvalid⟩ := descend_eq_ok h
    have hpaths := Namespace.ofPath_inj (Spot.valid_iff.mpr ⟨hfinal, hname⟩)
      (fun s hs => (List.mem_append.mp hs).elim (hfinal s) (hvalid s)) (Store.mk.inj hplace).2
    exact (List.append_cancel_left hpaths).symm
  · intro hsegments
    have hdescend := descend_of_valid e final (some name) (by
      rw [Option.getD_some, hsegments]
      simpa using hname)
    rwa [Option.getD_some, hsegments] at hdescend

/-- A path that is extended by segments without slashes leads down them. -/
theorem descend_slashed {handle : Store} {path : Option String} {e : Encoder}
    {final segments : List String} (hplace : descend handle path = .ok ⟨e, .ofPath final⟩)
    (hvalid : ∀ s ∈ segments, ValidName s) (h : Slashless segments) :
    descend handle (some (path.getD "" ++ "/" ++ slashed segments)) =
      .ok ⟨e, .ofPath (final ++ segments)⟩ := by
  have hdescend := descend_of_valid e final (some (slashed segments))
  rw [Option.getD_some, pathSegments_slashed hvalid h] at hdescend
  rw [descend_extended hplace, hdescend hvalid]

end Inspect

/-! ### What is listed -/

section Navigation

variable {σ : Type} [Backend σ] [LawfulBackend σ] {s : σ} {ts : Tables} {e : Encoder}
  {handle : Store} {path : Option String} {final : List String}

/-- What lies below a place is what lies below its path in the tree. -/
theorem Inspect.answer_namespaces (hm : ¬ mortal σ) (hs : view s = some ts)
    (hplace : descend handle path = .ok ⟨e, .ofPath final⟩) (hfinal : ∀ s ∈ final, ValidName s)
    (all : Bool) :
    (outcome (namespaces handle path all) s).1 =
      .ok ⟨displayNamespace path, ((treeOf ts).namespaces final (!all)).map withSlashes⟩ := by
  rw [answer_of_runs hm hs (namespaces_runs handle path all ts), hplace,
    ← subNamespaces_names (plain_of_valid hfinal)]
  rfl

/-- What a ledger has below a path are the tables below it in the tree. -/
theorem Ledger.Spells.mem_below {l : Ledger} {t : Tree} (h : l.Spells t) {back : List String} :
    back ∈ t.below final ↔
      2 ≤ back.length ∧ ∃ spot, (l spot).isSome = true ∧ spot.segments = final ++ back := by
  simp only [Tree.mem_below, h.mem_iff]

/-- The segments below a path are valid names. -/
theorem Ledger.Spells.valid_below {l : Ledger} {t : Tree} (h : l.Spells t) {back : List String}
    (hback : back ∈ t.below final) : ∀ s ∈ back, ValidName s := by
  obtain ⟨-, spot, hspot, hsegments⟩ := t.mem_below.mp hback
  exact fun s hs => h.valid spot hspot s (by simp [hsegments, hs])

/-- The tables below a path are listed by their segments. -/
theorem Ledger.Spells.map_withSlashes {l : Ledger} {t : Tree} (h : l.Spells t) :
    (t.namespaces final false).map Inspect.withSlashes = (t.below final).map slashed := by
  rw [Tree.namespaces, if_neg (by simp), List.map_map]
  exact List.map_congr_left fun back hback =>
    Inspect.withSlashes_joined (plain_of_valid (h.valid_below hback))

/-- The namespaces below a path are listed by their names, which are valid. -/
theorem Ledger.Spells.map_withSlashes_limited {l : Ledger} {t : Tree} (h : l.Spells t)
    (final : List String) :
    (t.namespaces final true).map Inspect.withSlashes = t.namespaces final true ∧
      ∀ name ∈ t.namespaces final true, ValidName name := by
  have hvalid : ∀ name ∈ t.namespaces final true, ValidName name := by
    intro name hname
    obtain ⟨rest, -, spot, hspot, hsegments⟩ := t.mem_namespaces_limited.mp hname
    exact h.valid spot hspot name (by simp [hsegments])
  refine ⟨?_, hvalid⟩
  conv_rhs => rw [← List.map_id (t.namespaces final true)]
  exact List.map_congr_left fun name hname => Inspect.withSlashes_of_plain (hvalid name hname).2

/-- The namespaces listed right below a place are got at by their names, if these have no slash. -/
theorem Ledger.Spells.child_of_listed {l : Ledger} {t : Tree} (h : l.Spells t)
    (hplace : Inspect.descend handle path = .ok ⟨e, .ofPath final⟩)
    (hfinal : ∀ s ∈ final, ValidName s) {entry : String} (hentry : entry ∈ t.namespaces final true) :
    ∃ child, Store.sub ⟨e, .ofPath final⟩ entry = .ok child ∧
      (Inspect.descend handle (some (path.getD "" ++ "/" ++ entry)) = .ok child ↔
        '/' ∉ entry.toList) := by
  have hvalid := (h.map_withSlashes_limited final).2 entry hentry
  refine ⟨⟨e, .ofPath (final ++ [entry])⟩, ?_, ?_⟩
  · rw [Store.sub, Namespace.sub_ofPath, validateName_eq_ok_iff.mpr hvalid]
    rfl
  · rw [Inspect.descend_extended hplace]
    exact Inspect.descend_eq_sub_iff hfinal hvalid

/-- A table below a place, without slashes in its segments, is listed at the path in front of its
    name. -/
theorem Ledger.Spells.table_of_listed {l : Ledger} (hm : ¬ mortal σ) (hs : view s = some ts)
    (h : l.Spells (treeOf ts)) (hplace : Inspect.descend handle path = .ok ⟨e, .ofPath final⟩)
    (hfinal : ∀ s ∈ final, ValidName s) {back : List String}
    (hback : back ∈ (treeOf ts).below final) (hslashless : Slashless back) :
    ∃ front table, slashed back = front ++ "/" ++ table ∧ '/' ∉ table.toList ∧ ∃ found,
      (outcome (Inspect.tables handle (some (path.getD "" ++ "/" ++ front))) s).1 = .ok found ∧
        table ∈ found.tables.map (·.name) := by
  obtain ⟨hlen, spot, hspot, hsegments⟩ := h.mem_below.mp hback
  have hvalid := h.valid_below hback
  -- The segments are those of a path, which is not empty, and the name of a table.
  obtain ⟨front, table, rfl⟩ : ∃ front table, back = front ++ [table] :=
    (List.eq_nil_or_concat' back).resolve_left (List.ne_nil_of_length_pos (by omega))
  have hfront : front ≠ [] := List.ne_nil_of_length_pos (by
    rw [List.length_append, List.length_singleton] at hlen
    omega)
  have hvalid' : ∀ s ∈ front, ValidName s := fun s hs => hvalid s (by simp [hs])
  have hslashless' : Slashless front := fun s hs => hslashless s (by simp [hs])
  refine ⟨slashed front, table, slashed_concat hfront table, hslashless table (by simp), ?_⟩
  have hpath := Inspect.descend_slashed hplace hvalid' hslashless'
  refine ⟨_, Inspect.answer_tables hm hs h hpath fun s hs => ?_, ?_⟩
  · exact (List.mem_append.mp hs).elim (hfinal s) (hvalid' s)
  · obtain rfl : spot = (final ++ front, table) := by
      refine Spot.segments_inj (hsegments.trans ?_)
      rw [Spot.segments, List.append_assoc]
    rw [Inspect.map_name_statsAt]
    exact h.mem_tables.mpr hspot

/-- **What is listed leads down where names have no slashes.** Take storage that any calls have led
    to, any handle on it and any path from there that leads somewhere. The namespaces listed there
    are those right below that have a table somewhere in them, each of them once, and the path to
    one that is made of its name leads to it exactly if the name has no slash. If all is listed,
    there is an entry for every table below, which has the segments on the way there with slashes
    between them. Among the tables whose segments have no slashes of their own no two have the same
    entry, and behind the last slash of an entry is the name of a table that is listed at the path
    in front of it. -/
theorem listed_namespaces_lead_down (hm : ¬ mortal σ) {calls : List Call} (h : Reached calls s)
    {moves : List Move} {place : Store} (hhandle : Store.follow ⟨e, .root⟩ moves = .ok handle)
    (hplace : Inspect.descend handle path = .ok place) :
    (∃ report, (outcome (Inspect.namespaces handle path false) s).1 = .ok report ∧
      report.namespaces.Nodup ∧
      (∀ entry, entry ∈ report.namespaces ↔ ∃ rest, rest ≠ [] ∧ ∃ spot,
        (Ledger.after calls spot).isSome = true ∧
          spot.segments = place.position.segments ++ entry :: rest) ∧
      ∀ entry ∈ report.namespaces, ∃ child, place.sub entry = .ok child ∧
        (Inspect.descend handle (some (path.getD "" ++ "/" ++ entry)) = .ok child ↔
          '/' ∉ entry.toList)) ∧
    ∃ (report : Inspect.NamespacesReport) (nested : List (List String)),
      (outcome (Inspect.namespaces handle path true) s).1 = .ok report ∧
      report.namespaces = nested.map slashed ∧ nested.Nodup ∧
      (∀ back, back ∈ nested ↔ 2 ≤ back.length ∧ ∃ spot,
        (Ledger.after calls spot).isSome = true ∧
          spot.segments = place.position.segments ++ back) ∧
      (∀ a ∈ nested, ∀ b ∈ nested, Slashless a → Slashless b → slashed a = slashed b → a = b) ∧
      ∀ back ∈ nested, Slashless back → ∃ front table,
        slashed back = front ++ "/" ++ table ∧ '/' ∉ table.toList ∧ ∃ found,
          (outcome (Inspect.tables handle (some (path.getD "" ++ "/" ++ front))) s).1 = .ok found ∧
            table ∈ found.tables.map (·.name) := by
  obtain ⟨ts, hs, hspells⟩ := h.spells hm
  obtain ⟨final, hfinal, rfl⟩ := Inspect.exists_ofPath_descend hhandle hplace
  rw [Namespace.segments_ofPath hfinal]
  constructor
  · have hshown := (hspells.map_withSlashes_limited final).1
    refine ⟨_, Inspect.answer_namespaces hm hs hplace hfinal false, ?_⟩
    simp only [Bool.not_false, hshown]
    refine ⟨(treeOf ts).nodup_namespaces_limited final, fun entry => ?_, fun entry hentry => ?_⟩
    · simp only [Tree.mem_namespaces_limited, hspells.mem_iff]
    · exact hspells.child_of_listed hplace hfinal hentry
  · refine ⟨_, (treeOf ts).below final, Inspect.answer_namespaces hm hs hplace hfinal true,
      hspells.map_withSlashes, ?_, fun back => hspells.mem_below, ?_, ?_⟩
    · have hsorted := (treeOf ts).pairwise_below (fun spot h => (plain_of_mem_treeOf h).1) final
      exact hsorted.nodup.of_map _
    · intro a ha b hb hslashless hslashless' hsame
      refine Inspect.slashed_inj (fun s hs => ?_) hslashless hslashless' hsame
      exact (List.mem_append.mp hs).elim (hspells.valid_below ha s) (hspells.valid_below hb s)
    · exact fun back hback hslashless =>
        hspells.table_of_listed hm hs hplace hfinal hback hslashless

end Navigation

/-- A table two namespaces below the top: the first one is found by its name, and the table at the
    path in front of its own name. -/
theorem listed_namespaces_lead_down_nested :
    let e : Encoder := .ofMaster ⟨.replicate Crypto.keySize 7, by decide⟩
    let call : Call := .onStore [.sub "a", .sub "b"] (.set "t" "k" (.value (.unsigned 5)))
    let s := (outcome (call.run ⟨e, .root⟩) Memory.empty).2
    (∃ report, (outcome (Inspect.namespaces ⟨e, .root⟩ none false) s).1 = .ok report ∧
      "a" ∈ report.namespaces ∧ ∃ child, Store.sub ⟨e, .root⟩ "a" = .ok child ∧
        Inspect.descend ⟨e, .root⟩ (some "/a") = .ok child) ∧
    ∃ front table, "a/b/t" = front ++ "/" ++ table ∧ '/' ∉ table.toList ∧ ∃ found,
      (outcome (Inspect.tables ⟨e, .root⟩ (some ("" ++ "/" ++ front))) s).1 = .ok found ∧
        table ∈ found.tables.map (·.name) := by
  intro e call s
  have hempty : Reached [] Memory.empty := .empty rfl
  have hreached : Reached [call] s := hempty.call e call
  have hhandle : Store.follow ⟨e, .root⟩ [] = .ok ⟨e, .root⟩ := rfl
  have hplace : Inspect.descend ⟨e, .root⟩ none = .ok ⟨e, .root⟩ := rfl
  obtain ⟨⟨report, hreport, -, hentries, hchild⟩, -, nested, -, -, -, hnested, -, hfound⟩ :=
    listed_namespaces_lead_down (fun h => h) hreached hhandle hplace
  have htable : (Ledger.after [call] (["a", "b"], "t")).isSome = true := by decide +kernel
  have hentry : "a" ∈ report.namespaces :=
    (hentries "a").mpr ⟨["b", "t"], by simp, (["a", "b"], "t"), htable, by decide +kernel⟩
  obtain ⟨child, hsub, hdescend⟩ := hchild "a" hentry
  have hpath : (none : Option String).getD "" ++ "/" ++ "a" = "/a" := by decide +kernel
  rw [hpath] at hdescend
  refine ⟨⟨report, hreport, hentry, child, hsub, hdescend.mpr (by decide)⟩, ?_⟩
  have hback : ["a", "b", "t"] ∈ nested :=
    (hnested _).mpr ⟨by decide, (["a", "b"], "t"), htable, by decide +kernel⟩
  have hslashed : slashed ["a", "b", "t"] = "a/b/t" := by decide +kernel
  exact hslashed ▸ hfound _ hback (by unfold Slashless; decide)

/-! ### Slashes in names -/

/-- **Slashes mislead.** A table in a namespace whose name has a slash, and another one in a
    namespace that is below another: the first namespace is listed, but its name leads elsewhere,
    and both tables have the same entry. -/
theorem slashes_mislead :
    let e : Encoder := .ofMaster ⟨.replicate Crypto.keySize 7, by decide⟩
    let first : Call := .onStore [.sub "a/b"] (.set "t" "k" (.value (.unsigned 5)))
    let second : Call := .onStore [.sub "a", .sub "b"] (.set "t" "k" (.value (.unsigned 6)))
    let s := (outcome (second.run ⟨e, .root⟩) (outcome (first.run ⟨e, .root⟩) Memory.empty).2).2
    Reached [first, second] s ∧
    (outcome (Inspect.namespaces ⟨e, .root⟩ none false) s).1 = .ok ⟨"/", ["a", "a/b"]⟩ ∧
    Inspect.descend ⟨e, .root⟩ (some "/a/b") ≠ Store.sub ⟨e, .root⟩ "a/b" ∧
    (outcome (Inspect.namespaces ⟨e, .root⟩ none true) s).1 = .ok ⟨"/", ["a/b/t", "a/b/t"]⟩ := by
  intro e first second s
  have hempty : Reached [] Memory.empty := .empty rfl
  refine ⟨(hempty.call e first).call e second, by decide +kernel, fun h => ?_, by decide +kernel⟩
  have hstems := congrArg (·.toOption.map Store.stem) h
  revert hstems
  decide +kernel

end TableVault
