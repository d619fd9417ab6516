import TableVault.Proofs.Inspect.Navigation

namespace TableVault

open Storage Record

/-!
# Going down a path

* `Cut` — the segments between the slashes of a path that are not empty, said without cutting;
  `Inspect.cut_iff` says that every path has exactly those that are followed;
* `Inspect.descend_join` — a path of two halves is followed half by half, errors included;
* `Inspect.descend_ok_iff` and `Inspect.descend_error_iff` — where a path leads to, and which of
  its segments it fails at;
* `descent_follows_segments` — all of this for every handle on a vault.
-/

/-! ### Segments between slashes -/

/-- A path is what some segments make with slashes between them, and those of them that are not
    empty are given. -/
def Cut (path : String) (segments : List String) : Prop :=
  ∃ all, all ≠ [] ∧ Slashless all ∧ slashed all = path ∧ all.filter (· ≠ "") = segments

namespace Inspect

/-- Every path has exactly the segments that are followed. -/
theorem cut_iff {path : String} {segments : List String} :
    Cut path segments ↔ pathSegments path = segments := by
  constructor
  · rintro ⟨all, hne, hslashless, rfl, rfl⟩
    rw [pathSegments, pieces_slashed hne hslashless, map_ofList_filter, map_ofList_toList]
  · rintro rfl
    refine ⟨(pieces '/' path.toList).map String.ofList, ?_, ?_, ?_, (map_ofList_filter _).symm⟩
    · simpa using pieces_ne_nil '/' path.toList
    · intro s hs
      obtain ⟨p, hp, rfl⟩ := List.mem_map.mp hs
      rw [String.toList_ofList]
      exact not_mem_of_mem_pieces hp
    · rw [slashed, map_toList_ofList, join_pieces, String.ofList_toList]

/-- Going down two halves of a path is going down the first and then the second. -/
theorem descend_join (s : Store) (a b : String) :
    descend s (some (a ++ "/" ++ b)) = (do descend (← descend s (some a)) (some b)) := by
  simp only [descend, Option.getD_some, pathSegments_append, descendThrough_append]

/-! ### Where a path leads -/

/-- The segments of a path are not empty. -/
theorem ne_empty_of_mem_pathSegments {path s : String} (h : s ∈ pathSegments path) : s ≠ "" := by
  obtain ⟨p, hp, rfl⟩ := List.mem_map.mp h
  simpa using (List.mem_filter.mp hp).2

/-- Segments without separators are followed up to the first one that has a separator, which is
    refused. -/
theorem descendThrough_of_bad (e : Encoder) (base : List String) {front : List String}
    (hfront : ∀ s ∈ front, ValidName s) {bad : String} (hbad : separator ∈ bad.toList)
    (back : List String) :
    descendThrough ⟨e, .ofPath base⟩ (front ++ bad :: back) =
      .error (.invalidName bad .containsSeparator) := by
  have hne : bad ≠ "" := by
    rintro rfl
    simp at hbad
  have hreached : descendThrough ⟨e, .ofPath base⟩ front = .ok ⟨e, .ofPath (base ++ front)⟩ := by
    rw [descendThrough_eq, follow_eq, pathAfter_sub_of_valid base hfront]
    rfl
  have hrefused : Store.sub ⟨e, .ofPath (base ++ front)⟩ bad =
      .error (.invalidName bad .containsSeparator) := by
    rw [Store.sub, Namespace.sub_ofPath, validateName_eq_error (.inr hbad), if_neg hne]
    rfl
  rw [descendThrough_append, hreached]
  show (do descendThrough (← Store.sub ⟨e, .ofPath (base ++ front)⟩ bad) back) = _
  rw [hrefused]
  rfl

/-- A segment that has a separator comes first among those that have. -/
theorem exists_first_of_not_plain {segments : List String} (h : ¬ Plain segments) :
    ∃ front bad back, segments = front ++ bad :: back ∧ Plain front ∧ separator ∈ bad.toList := by
  have hfound : (segments.find? (·.toList.contains separator)).isSome := by
    rw [List.find?_isSome]
    simpa [Plain] using h
  obtain ⟨bad, hbad⟩ := Option.isSome_iff_exists.mp hfound
  obtain ⟨hsep, front, back, hsplit, hfront⟩ := List.find?_eq_some_iff_append.mp hbad
  exact ⟨front, bad, back, hsplit, fun s hs => by simpa using hfront s hs, by simpa using hsep⟩

section Handle

variable {e : Encoder} {base : List String} {path : String}

/-- A path leads somewhere exactly if its segments have no separators, and then to the end of
    them. -/
theorem descend_ok_iff {place : Store} :
    descend ⟨e, .ofPath base⟩ (some path) = .ok place ↔
      Plain (pathSegments path) ∧ place = ⟨e, .ofPath (base ++ pathSegments path)⟩ := by
  constructor
  · intro h
    obtain ⟨hplace, hvalid⟩ := descend_eq_ok h
    exact ⟨plain_of_valid hvalid, hplace⟩
  · rintro ⟨hplain, rfl⟩
    exact descend_of_valid e base (some path) fun s hs =>
      ⟨ne_empty_of_mem_pathSegments hs, hplain s hs⟩

/-- A path fails exactly at the first of its segments that has a separator. -/
theorem descend_error_iff {fault : VaultError} :
    descend ⟨e, .ofPath base⟩ (some path) = .error fault ↔
      ∃ front bad back, pathSegments path = front ++ bad :: back ∧ Plain front ∧
        separator ∈ bad.toList ∧ fault = .invalidName bad .containsSeparator := by
  have hfails : ∀ {front bad back}, pathSegments path = front ++ bad :: back → Plain front →
      separator ∈ bad.toList → descend ⟨e, .ofPath base⟩ (some path) =
        .error (.invalidName bad .containsSeparator) := by
    intro front bad back hsplit hfront hbad
    rw [descend, Option.getD_some, hsplit]
    refine descendThrough_of_bad e base (fun s hs => ⟨?_, hfront s hs⟩) hbad back
    have hmem : s ∈ pathSegments path := by simp [hsplit, hs]
    exact ne_empty_of_mem_pathSegments hmem
  constructor
  · intro h
    have hplain : ¬ Plain (pathSegments path) := fun hplain => by
      rw [descend_ok_iff.mpr ⟨hplain, rfl⟩] at h
      cases h
    obtain ⟨front, bad, back, hsplit, hfront, hbad⟩ := exists_first_of_not_plain hplain
    rw [hfails hsplit hfront hbad] at h
    exact ⟨front, bad, back, hsplit, hfront, hbad, (Except.error.inj h).symm⟩
  · rintro ⟨front, bad, back, hsplit, hfront, hbad, rfl⟩
    exact hfails hsplit hfront hbad

end Handle

end Inspect

/-- **Going down a path follows its segments.** For any handle on a vault and any path: a path of
    two halves is followed half by half, errors included. Only the segments between slashes that are
    not empty count. The path leads somewhere exactly if none of these has a separator, and then to
    a handle of the same vault whose segments are those of the first one and these. Else it fails
    with the name of the first of them that has a separator. The stored data are left alone. -/
theorem descent_follows_segments {e : Encoder} {moves : List Move} {s : Store}
    (hhandle : Store.follow ⟨e, .root⟩ moves = .ok s) (path : String) :
    (∀ more, Inspect.descend s (some (path ++ "/" ++ more)) =
      (do Inspect.descend (← Inspect.descend s (some path)) (some more))) ∧
    ∃ segments, Cut path segments ∧
      (∀ other, Cut other segments →
        Inspect.descend s (some other) = Inspect.descend s (some path)) ∧
      ((∃ place, Inspect.descend s (some path) = .ok place) ↔ Plain segments) ∧
      (∀ place, Inspect.descend s (some path) = .ok place →
        place.encoder = s.encoder ∧ place.position.segments = s.position.segments ++ segments) ∧
      (∀ fault, Inspect.descend s (some path) = .error fault ↔
        ∃ front bad back, segments = front ++ bad :: back ∧ Plain front ∧
          separator ∈ bad.toList ∧ fault = .invalidName bad .containsSeparator) ∧
      ∀ {σ : Type} (stored : σ),
        outcome (Action.ofExcept (Inspect.descend s (some path))) stored =
          (Inspect.descend s (some path), stored) := by
  obtain ⟨base, hbase, rfl⟩ := Inspect.exists_ofPath hhandle
  refine ⟨Inspect.descend_join _ path, Inspect.pathSegments path, Inspect.cut_iff.mpr rfl,
    fun other hother => ?_, ?_, fun place hplace => ?_, fun fault => Inspect.descend_error_iff,
    fun stored => ?_⟩
  · rw [Inspect.descend, Inspect.descend, Option.getD_some, Option.getD_some,
      Inspect.cut_iff.mp hother]
  · simp only [Inspect.descend_ok_iff, exists_and_left, exists_eq, and_true]
  · obtain ⟨hplain, rfl⟩ := Inspect.descend_ok_iff.mp hplace
    refine ⟨rfl, ?_⟩
    rw [Namespace.segments_ofPath hbase, Namespace.segments_ofPath]
    intro s hs
    rcases List.mem_append.mp hs with hs | hs
    · exact hbase s hs
    · exact ⟨Inspect.ne_empty_of_mem_pathSegments hs, hplain s hs⟩
  · cases Inspect.descend (⟨e, .ofPath base⟩ : Store) (some path) <;> rfl

/-- From a bucket, a path with slashes to spare leads two segments further down, and another path
    fails at the first of two segments with a separator. -/
theorem descent_follows_segments_bucket :
    let e : Encoder := .ofMaster ⟨.replicate Crypto.keySize 7, by decide⟩
    let s : Store := ⟨e, .ofPath [sharedRoot, "x"]⟩
    Store.follow ⟨e, .root⟩ [.bucket "x"] = .ok s ∧
      (∃ place, Inspect.descend s (some "a//b/") = .ok place ∧
        place.position.segments = s.position.segments ++ ["a", "b"]) ∧
      Inspect.descend s (some "/a/b\u001f/\u001f") =
        .error (.invalidName "b\u001f" .containsSeparator) := by
  intro e s
  have hhandle : Store.follow ⟨e, .root⟩ [.bucket "x"] = .ok s := by rfl
  refine ⟨hhandle, ?_, ?_⟩
  · obtain ⟨-, segments, hcut, -, hok, hplace, -⟩ := descent_follows_segments hhandle "a//b/"
    have hsegments : ["a", "b"] = segments :=
      (show ["a", "b"] = Inspect.pathSegments "a//b/" by decide).trans (Inspect.cut_iff.mp hcut)
    subst hsegments
    obtain ⟨place, hdescend⟩ := hok.mpr (by decide)
    exact ⟨place, hdescend, (hplace place hdescend).2⟩
  · obtain ⟨-, segments, hcut, -, -, -, herror, -⟩ :=
      descent_follows_segments hhandle "/a/b\u001f/\u001f"
    have hsegments : ["a", "b\u001f", "\u001f"] = segments :=
      (show _ = Inspect.pathSegments "/a/b\u001f/\u001f" by decide).trans (Inspect.cut_iff.mp hcut)
    subst hsegments
    exact (herror _).mpr ⟨["a"], "b\u001f", ["\u001f"], rfl, by decide, by decide, rfl⟩

end TableVault
