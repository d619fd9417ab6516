import TableVault.Proofs.Tree.Path

namespace TableVault

open Storage

/-!
# Names spell paths

What a client says is a list of names: those of the namespaces on the way down from the top,
and that of a table. What the backend hears is one text.

* `Namespace.reach` — the place at the end of a path, one segment after another;
* `qualified` — the backend name of a table there;
* `Namespace.reach_eq` and `Namespace.segments_ofPath` — a path of accepted names is reached,
  and is read off again;
* `Spot.not_beneath_systemTable` — no backend name lies beneath the system table;
* `names_spell_paths` — backend names are equal, or beneath one another, exactly as the lists
  that they spell, and keep clear of the system table.
-/

/-- All names are accepted. -/
def Accepted (names : List String) : Prop := ∀ name ∈ names, validateName name = .ok ()

/-- Accepted names are the valid ones. -/
theorem accepted_iff {names : List String} : Accepted names ↔ ∀ name ∈ names, ValidName name :=
  forall₂_congr fun _ _ => validateName_eq_ok_iff

/-! ### Places -/

namespace Namespace

/-- The place at the end of a path from the top, one segment after another. -/
def reach (path : List String) : Except VaultError Namespace :=
  path.foldlM sub root

/-- From a place on, accepted names lead to the place at the end of the longer path. -/
private theorem foldlM_sub {path : List String} (h : Accepted path) (start : List String) :
    path.foldlM sub (ofPath start) = .ok (ofPath (start ++ path)) := by
  induction path generalizing start with
  | nil => rw [List.append_nil]; rfl
  | cons name rest ih =>
    have hname : (ofPath start).sub name = .ok (ofPath (start ++ [name])) := by
      rw [sub_ofPath, h name (by simp)]
      rfl
    have hrest := ih (fun other hother => h other (by simp [hother])) (start ++ [name])
    rw [List.append_assoc] at hrest
    rw [List.foldlM_cons, hname]
    exact hrest

/-- A path of accepted names is reached. -/
theorem reach_eq {path : List String} (h : Accepted path) : reach path = .ok (ofPath path) :=
  foldlM_sub h []

/-- The segments of a place are the path to it. -/
theorem segments_ofPath {path : List String} (h : ∀ s ∈ path, ValidName s) :
    (ofPath path).segments = path := by
  -- The stem ends with a separator, so cutting it leaves one empty piece behind the path.
  have hcut : segmentsOf (ofPath path).stem = path ++ [""] := by
    have hstem := segmentsOf_stem_append (plain_of_valid h) ""
    rwa [String.append_empty] at hstem
  have hfilter : (ofPath path).segments = (segmentsOf (ofPath path).stem).filter (· ≠ "") :=
    map_ofList_filter _
  have hkept : path.filter (· ≠ "") = path :=
    List.filter_eq_self.mpr fun s hs => decide_eq_true (h s hs).1
  rw [hfilter, hcut, List.filter_append, hkept]
  exact List.append_nil path

/-- Places at paths of valid names are told apart by these. -/
theorem ofPath_inj {path other : List String} (hpath : ∀ s ∈ path, ValidName s)
    (hother : ∀ s ∈ other, ValidName s) (h : ofPath path = ofPath other) : path = other := by
  rw [← segments_ofPath hpath, h, segments_ofPath hother]

/-- A shared bucket is reached from the top through the root of all buckets. -/
theorem shared_eq_reach (name : String) : shared name = reach [sharedRoot, name] := by
  have hroot : (ofPath []).sub sharedRoot = .ok (ofPath [sharedRoot]) := by
    rw [sub_ofPath]
    rfl
  show _ = (ofPath []).sub sharedRoot >>= fun ns => [name].foldlM sub ns
  rw [hroot, shared_eq]
  show _ = (ofPath [sharedRoot]).sub name >>= pure
  rw [sub_ofPath, bind_pure]
  rfl

end Namespace

/-- The backend name of a table at the end of a path. -/
def qualified (path : List String) (table : String) : Except VaultError String := do
  (← Namespace.reach path).qualify table

/-- The backend name of a table is that of its spot. -/
theorem qualified_eq {path : List String} {table : String} (h : Accepted (path ++ [table])) :
    qualified path table = .ok (Spot.name (path, table)) := by
  have hpath : Accepted path := fun name hname => h name (by simp [hname])
  unfold qualified
  rw [Namespace.reach_eq hpath]
  show (Namespace.ofPath path).qualify table = _
  rw [Namespace.qualify_ofPath, h table (by simp)]
  rfl

/-! ### The system table -/

namespace Spot

/-- No valid spot lies beneath the system table, whose name begins with an empty segment. -/
theorem not_beneath_systemTable {spot : Spot} (h : spot.Valid) :
    inSubtree spot.name systemTable = false := by
  have hsystem : segmentsOf systemTable = ["", "kvnest"] := by decide
  rw [Bool.eq_false_iff, ne_eq, inSubtree_iff]
  rintro ⟨-, heq | ⟨rest, heq⟩⟩
  · exact name_ne_systemTable h heq
  · have hsegments := segmentsOf_name h.plain
    rw [heq, segmentsOf_append, hsystem] at hsegments
    exact (h "" (by simp [← hsegments])).1 rfl

end Spot

/-! ### Names and paths -/

/-- **Names spell paths.** Accepted names lead to a place and a backend name. Two backend names
    are the same exactly if path and table are, and one lies beneath the other exactly if its
    segments begin with those of the other. A place tells the path to it, and a shared bucket is
    the place at the end of its path. No backend name meets the system table, neither above nor
    below it. A name that is empty or contains the separator is refused everywhere. -/
theorem names_spell_paths :
    (∀ p t q u, Accepted (p ++ [t]) → Accepted (q ++ [u]) →
      ∃ name other, qualified p t = .ok name ∧ qualified q u = .ok other ∧
        (name = other ↔ p = q ∧ t = u) ∧
        (inSubtree name other = true ↔ q ++ [u] <+: p ++ [t]) ∧
        isSystem name = false ∧ inSubtree name systemTable = false ∧
        inSubtree systemTable name = false) ∧
    (∀ p, Accepted p → ∃ ns, Namespace.reach p = .ok ns ∧ ns.segments = p) ∧
    (∀ name, Namespace.shared name = Namespace.reach [sharedRoot, name]) ∧
    (∀ name, name = "" ∨ separator ∈ name.toList →
      ∃ fault, Namespace.shared name = .error (.invalidName name fault) ∧
        ∀ ns : Namespace, ns.sub name = .error (.invalidName name fault) ∧
          ns.qualify name = .error (.invalidName name fault)) := by
  refine ⟨fun p t q u hp hq => ?_, fun p hp => ?_, Namespace.shared_eq_reach, fun name h => ?_⟩
  · have hspot : Spot.Valid (p, t) := accepted_iff.mp hp
    have hother : Spot.Valid (q, u) := accepted_iff.mp hq
    refine ⟨_, _, qualified_eq hp, qualified_eq hq, ?_, Spot.inSubtree_name_iff hother hspot.plain,
      ?_, Spot.not_beneath_systemTable hspot, Spot.not_inSubtree_name hspot⟩
    · constructor
      · intro heq
        exact Prod.mk.inj (Spot.name_inj hspot.plain hother.plain heq)
      · rintro ⟨rfl, rfl⟩
        rfl
    · simpa [isSystem] using Spot.name_ne_systemTable hspot
  · exact ⟨_, Namespace.reach_eq hp, Namespace.segments_ofPath (accepted_iff.mp hp)⟩
  · have hrefused := validateName_eq_error h
    refine ⟨if name = "" then .empty else .containsSeparator, ?_, fun ns => ⟨?_, ?_⟩⟩
    · rw [Namespace.shared, hrefused]
      rfl
    · rw [Namespace.sub, hrefused]
      rfl
    · rw [Namespace.qualify, hrefused]
      rfl

/-- A table that has the name of a namespace lies above what is in the namespace, and the
    namespace of a longer name is elsewhere. -/
theorem names_spell_paths_nested :
    (∃ name other, qualified ["a", "é"] "t" = .ok name ∧ qualified [] "a" = .ok other ∧
      name ≠ other ∧ inSubtree name other = true) ∧
    (∃ name other, qualified ["ab"] "t" = .ok name ∧ qualified [] "a" = .ok other ∧
      inSubtree name other = false) ∧
    (∃ ns, Namespace.reach ["a", "é"] = .ok ns ∧ ns.segments = ["a", "é"]) ∧
    ∃ fault, Namespace.shared "a\u001fb" = .error (.invalidName "a\u001fb" fault) := by
  obtain ⟨hnames, hplaces, -, hrefused⟩ := names_spell_paths
  refine ⟨?_, ?_, hplaces ["a", "é"] (by unfold Accepted; decide), ?_⟩
  · obtain ⟨name, other, hname, hother, heq, hbeneath, -⟩ :=
      hnames ["a", "é"] "t" [] "a" (by unfold Accepted; decide) (by unfold Accepted; decide)
    exact ⟨name, other, hname, hother, by simp [heq], hbeneath.mpr (by decide)⟩
  · obtain ⟨name, other, hname, hother, -, hbeneath, -⟩ :=
      hnames ["ab"] "t" [] "a" (by unfold Accepted; decide) (by unfold Accepted; decide)
    refine ⟨name, other, hname, hother, Bool.eq_false_iff.mpr fun h => ?_⟩
    exact absurd (hbeneath.mp h) (by decide)
  · obtain ⟨fault, hfault, -⟩ := hrefused "a\u001fb" (.inr (by decide))
    exact ⟨fault, hfault⟩

end TableVault
