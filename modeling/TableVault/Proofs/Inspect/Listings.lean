import TableVault.Proofs.Inspect.Findings
import TableVault.Proofs.Tree.Ledger
import TableVault.Proofs.Tree.Walk

namespace TableVault

open Storage Record

/-!
# Listings agree with the writes

Tables are listed with the number of their keys, and keys with the marks of their records. The
two listings read the backend in different ways.

* `Inspect.mem_infosOf`, `Inspect.map_key_infosOf` and `Inspect.length_infosOf` — the keys that
  are listed for some records;
* `Inspect.answer_tables` and `Inspect.answer_keys` — what is listed, told by the tree that the
  tables spell;
* `listings_agree` — whatever calls have led to it, a storage is listed as the ledger of the calls
  says, and both listings agree.
-/

namespace Inspect

/-! ### Keys -/

/-- A key is listed with the mark of its record. -/
theorem mem_infosOf {records : Records} {info : KeyInfo} :
    info ∈ infosOf records ↔ Records.marks records info.key = some ⟨info.encrypted, info.size⟩ := by
  rw [infosOf, List.mem_map, Records.marks, Option.map_eq_some_iff]
  constructor
  · rintro ⟨⟨key, record⟩, hmem, rfl⟩
    exact ⟨record, Std.ExtTreeMap.mem_toList_iff_getElem?_eq_some.mp hmem, rfl⟩
  · rintro ⟨record, hfound, hmark⟩
    obtain ⟨hencrypted, hsize⟩ := Mark.mk.inj hmark
    refine ⟨(info.key, record), Std.ExtTreeMap.mem_toList_iff_getElem?_eq_some.mpr hfound, ?_⟩
    rw [hencrypted, hsize]

/-- The keys of the records are listed in their order. -/
theorem map_key_infosOf (records : Records) : (infosOf records).map (·.key) = records.keys := by
  rw [infosOf, List.map_map]
  exact Std.ExtTreeMap.map_fst_toList_eq_keys

/-- As many keys are listed as there are records. -/
theorem length_infosOf (records : Records) : (infosOf records).length = records.size := by
  rw [infosOf, List.length_map, Std.ExtTreeMap.length_toList]

/-! ### Tables -/

/-- What there is to say about a table at a spot of a tree. -/
def statsAt (t : Tree) (path : List String) (table : String) : TableStats :=
  ⟨table, (t.recordsAt (path, table)).size⟩

/-- Tables are listed by their names. -/
theorem map_name_statsAt (t : Tree) (path names : List String) :
    (names.map (statsAt t path)).map (·.name) = names := by
  rw [List.map_map]
  exact List.map_id names

end Inspect

namespace Ledger.Spells

variable {l : Ledger} {t : Tree} {ts : Tables} {path : List String}

/-- The tables at a path are those that the ledger has there. -/
theorem mem_tables (h : l.Spells t) {table : String} :
    table ∈ t.tables path ↔ (l (path, table)).isSome = true := by
  rw [Tree.mem_tables, ← h.mem_iff]
  exact and_iff_left_of_imp fun hmem => (Spot.valid_iff.mp (h.valid _ hmem)).2.1

/-- The tables at a path are all counted. -/
theorem mapM_statsOf (h : l.Spells (treeOf ts)) (hpath : ∀ s ∈ path, ValidName s) :
    ((Namespace.ofPath path).childTables ts.names).mapM
        (Inspect.statsOf ts (Namespace.ofPath path)) =
      .ok (((treeOf ts).tables path).map (Inspect.statsAt (treeOf ts) path)) := by
  rw [childTables_names (plain_of_valid hpath)]
  refine mapM_eq_ok fun table htable => ?_
  have hspot := h.valid _ (h.mem_iff.mpr (h.mem_tables.mp htable))
  rw [Inspect.statsOf, Namespace.qualify_ofPath,
    validateName_eq_ok_iff.mpr (Spot.valid_iff.mp hspot).2, Inspect.statsAt, recordsAt_treeOf hspot]
  rfl

end Ledger.Spells

/-! ### Agreement -/

section Agreement

variable {σ : Type} [Backend σ] [LawfulBackend σ] {s : σ} {ts : Tables} {e : Encoder}
  {handle : Store} {path : Option String} {final : List String}

/-- What an inspection answers that leaves the tables alone. -/
theorem answer_of_runs (hm : ¬ mortal σ) (hs : view s = some ts) {α : Type}
    {x : Action σ α} {r : Except VaultError α} {cut : Set Tables} (h : Runs x ts r ts cut) :
    (outcome x s).1 = r := by
  obtain ⟨s', hrun, -⟩ := h.outcome hm hs
  rw [outcome_of_answering hrun]

/-- The tables of a place are those of its path in the tree. -/
theorem Inspect.answer_tables (hm : ¬ mortal σ) (hs : view s = some ts) {l : Ledger}
    (h : l.Spells (treeOf ts)) (hplace : descend handle path = .ok ⟨e, .ofPath final⟩)
    (hfinal : ∀ s ∈ final, ValidName s) :
    (outcome (tables handle path) s).1 =
      .ok ⟨displayNamespace path, ((treeOf ts).tables final).map (statsAt (treeOf ts) final)⟩ := by
  rw [answer_of_runs hm hs (tables_runs handle path ts), hplace]
  show (do return (⟨displayNamespace path, ← ((Namespace.ofPath final).childTables ts.names).mapM
    (statsOf ts (.ofPath final))⟩ : TablesReport)) = _
  rw [h.mapM_statsOf hfinal]
  rfl

/-- The keys of a table with a valid name are those of its records. -/
theorem Inspect.answer_keys (hm : ¬ mortal σ) (hs : view s = some ts)
    (hplace : descend handle path = .ok ⟨e, .ofPath final⟩) {table : String}
    (hspot : Spot.Valid (final, table)) :
    (outcome (keys handle path table) s).1 =
      .ok (infosOf ((treeOf ts).recordsAt (final, table))) := by
  rw [answer_of_runs hm hs (keys_runs handle path table ts), hplace, recordsAt_treeOf hspot]
  show (do return infosOf (ts.recordsOf (← (Namespace.ofPath final).qualify table)) : Except _ _) = _
  rw [Namespace.qualify_ofPath, validateName_eq_ok_iff.mpr (Spot.valid_iff.mp hspot).2]
  rfl

/-- **Listings agree with each other and with the writes.** Take storage that any calls have led
    to, any handle on it and any path from there that leads somewhere. Exactly the tables of that
    place are listed that have been written to and not been dropped since, once and in increasing
    order, each with as many keys as are listed for it. For every table exactly the keys that are
    there are listed, once and in increasing order, each as encrypted if its last write was, and
    with one byte more than the last written value has. -/
theorem listings_agree (hm : ¬ mortal σ) {calls : List Call} (h : Reached calls s)
    {moves : List Move} {place : Store} (hhandle : Store.follow ⟨e, .root⟩ moves = .ok handle)
    (hplace : Inspect.descend handle path = .ok place) :
    (∃ report, (outcome (Inspect.tables handle path) s).1 = .ok report ∧
      (report.tables.map (·.name)).Pairwise (· < ·) ∧
      (∀ table, table ∈ report.tables.map (·.name) ↔
        (Ledger.after calls (place.position.segments, table)).isSome = true) ∧
      ∀ stats ∈ report.tables, ∃ infos,
        (outcome (Inspect.keys handle path stats.name) s).1 = .ok infos ∧
          stats.keys = infos.length) ∧
    ∀ table, validateName table = .ok () → ∃ infos,
      (outcome (Inspect.keys handle path table) s).1 = .ok infos ∧
      (infos.map (·.key)).Pairwise (· < ·) ∧
      ∀ info, info ∈ infos ↔ ∃ entry,
        (Ledger.after calls).entryAt (place.position.segments, table) info.key = some entry ∧
          info.encrypted = entry.encrypted ∧ info.size = 1 + entry.value.encode.length := by
  obtain ⟨ts, hs, hspells⟩ := h.spells hm
  obtain ⟨final, hfinal, rfl⟩ := Inspect.exists_ofPath_descend hhandle hplace
  rw [Namespace.segments_ofPath hfinal]
  have hkeys : ∀ {table}, Spot.Valid (final, table) → _ := Inspect.answer_keys hm hs hplace
  refine ⟨⟨_, Inspect.answer_tables hm hs hspells hplace hfinal, ?_, ?_, ?_⟩, fun table htable => ?_⟩
  · rw [Inspect.map_name_statsAt]
    exact (treeOf ts).pairwise_tables final
  · rw [Inspect.map_name_statsAt]
    exact fun table => hspells.mem_tables
  · intro stats hstats
    obtain ⟨table, htable, rfl⟩ := List.mem_map.mp hstats
    have hspot := hspells.valid _ (hspells.mem_iff.mpr (hspells.mem_tables.mp htable))
    exact ⟨_, hkeys hspot, (Inspect.length_infosOf _).symm⟩
  · have hspot : Spot.Valid (final, table) :=
      Spot.valid_iff.mpr ⟨hfinal, validateName_eq_ok_iff.mp htable⟩
    refine ⟨_, hkeys hspot, ?_, fun info => ?_⟩
    · rw [Inspect.map_key_infosOf]
      exact Records.pairwise_keys _
    · rw [Inspect.mem_infosOf, hspells.marks_recordsAt, Option.map_eq_some_iff]
      refine exists_congr fun entry => and_congr_right fun _ => ?_
      rw [Entry.mark, Mark.mk.injEq, eq_comm, eq_comm (b := info.size)]

end Agreement

/-- A key that was first written in plain and then encrypted is listed as encrypted, with the size
    of the second value. -/
theorem listings_agree_overwritten :
    let e : Encoder := .ofMaster ⟨.replicate Crypto.keySize 7, by decide⟩
    let first : Call := .onStore [.sub "a"] (.set "t" "k" (.value (.unsigned 5)))
    let second : Call := .onView [.sub "a"] "t" (.cryptSet "k" (.value (.text "x")))
    let s := (outcome (second.run ⟨e, .root⟩) (outcome (first.run ⟨e, .root⟩) Memory.empty).2).2
    (∃ report, (outcome (Inspect.tables ⟨e, .root⟩ (some "/a/")) s).1 = .ok report ∧
      "t" ∈ report.tables.map (·.name)) ∧
    ∃ infos, (outcome (Inspect.keys ⟨e, .root⟩ (some "/a/") "t") s).1 = .ok infos ∧
      ⟨"k", true, 3⟩ ∈ infos := by
  intro e first second s
  have hempty : Reached [] Memory.empty := .empty rfl
  have hreached : Reached [first, second] s := (hempty.call e first).call e second
  have hhandle : Store.follow ⟨e, .root⟩ [] = .ok ⟨e, .root⟩ := rfl
  have hplace : Inspect.descend ⟨e, .root⟩ (some "/a/") = .ok ⟨e, .ofPath ["a"]⟩ := rfl
  obtain ⟨⟨report, hreport, -, htables, -⟩, hkeys⟩ :=
    listings_agree (fun h => h) hreached hhandle hplace
  obtain ⟨infos, hinfos, -, hmem⟩ := hkeys "t" (by decide)
  have hmark : ((Ledger.after [first, second]).entryAt ((Namespace.ofPath ["a"]).segments, "t")
      "k").map Entry.mark = some ⟨true, 3⟩ := by decide +kernel
  obtain ⟨entry, hentry, hmark⟩ := Option.map_eq_some_iff.mp hmark
  obtain ⟨hencrypted, hsize⟩ := Mark.mk.inj hmark
  exact ⟨⟨report, hreport, (htables "t").mpr (by decide +kernel)⟩, infos, hinfos,
    (hmem ⟨"k", true, 3⟩).mpr ⟨entry, hentry, hencrypted.symm, hsize.symm⟩⟩

end TableVault
