import Mathlib
import TableVault.Namespace
import TableVault.Proofs.Storage.Tables

namespace TableVault

open Storage

/-!
# Paths and the names that spell them

A table is at a spot of the tree: the path of segments to its namespace, and its own
name. The backend knows it by the segments joined with separators. This file proves that
nothing is lost on the way:

* `ValidName` — the names that tables and namespaces may have;
* `joined` and `segmentsOf` — segments as one text, and the segments of a text;
* `Spot`, `Spot.name` and `Spot.ofName` — the spots of tables and their backend names,
  which determine each other;
* `Spot.inSubtree_name_iff` — a backend name lies beneath another exactly if its segments
  begin with those of the other;
* `Namespace.ofPath` and `Namespace.relative?_name_iff` — what a backend name has after
  the stem of a namespace is what its segments have after the path to the namespace;
* `Spot.not_inSubtree_name` — the system table is out of reach.
-/

/-! ### Valid names -/

/-- A name that tables and namespaces may have. -/
def ValidName (name : String) : Prop := name ≠ "" ∧ separator ∉ name.toList

/-- Validation accepts exactly the valid names. -/
theorem validateName_eq_ok_iff {name : String} : validateName name = .ok () ↔ ValidName name := by
  unfold validateName ValidName
  by_cases hempty : name = ""
  · simp [hempty]
  · by_cases hsep : name.toList.contains separator
    · simp only [if_neg hempty, if_pos hsep]
      simp_all
    · simp only [if_neg hempty, if_neg hsep]
      simp_all

/-- An invalid name is refused, as empty if it is and else for its separator. -/
theorem validateName_eq_error {name : String} (h : name = "" ∨ separator ∈ name.toList) :
    validateName name =
      .error (.invalidName name (if name = "" then .empty else .containsSeparator)) := by
  unfold validateName
  by_cases hempty : name = ""
  · rw [if_pos hempty, if_pos hempty]
  · have hsep : name.toList.contains separator = true := by simpa [hempty] using h
    rw [if_neg hempty, if_pos hsep, if_neg hempty]

/-! ### Joined segments -/

/-- Segments that do not contain the separator. They may be empty. -/
def Plain (segments : List String) : Prop := ∀ s ∈ segments, separator ∉ s.toList

instance (segments : List String) : Decidable (Plain segments) :=
  inferInstanceAs (Decidable (∀ s ∈ segments, separator ∉ s.toList))

/-- Valid names do not contain the separator. -/
theorem plain_of_valid {segments : List String} (h : ∀ s ∈ segments, ValidName s) :
    Plain segments :=
  fun s hs => (h s hs).2

/-- Segments with a separator between them, as one text. -/
def joined (segments : List String) : String :=
  String.ofList (join separator (segments.map String.toList))

/-- The segments of a text between its separators. -/
def segmentsOf (text : String) : List String :=
  (pieces separator text.toList).map String.ofList

/-- There is at least one segment. -/
theorem segmentsOf_ne_nil (text : String) : segmentsOf text ≠ [] := by
  simpa [segmentsOf] using pieces_ne_nil separator text.toList

/-- The segments of a text do not contain the separator. -/
theorem plain_segmentsOf (text : String) : Plain (segmentsOf text) := by
  intro s hs
  obtain ⟨p, hp, rfl⟩ := List.mem_map.mp hs
  rw [String.toList_ofList]
  exact not_mem_of_mem_pieces hp

/-- The first of several joined segments stands before a separator. -/
theorem toList_joined_cons (s : String) {rest : List String} (h : rest ≠ []) :
    (joined (s :: rest)).toList = s.toList ++ separator :: (joined rest).toList := by
  simp only [joined, String.toList_ofList]
  exact join_append separator (List.cons_ne_nil s.toList []) (by simpa using h)

/-- Texts are got back from their characters. -/
theorem map_ofList_toList (texts : List String) :
    (texts.map String.toList).map String.ofList = texts := by
  simp [List.map_map, Function.comp_def]

/-- Characters are got back from the texts that they make. -/
theorem map_toList_ofList (ps : List (List Char)) :
    (ps.map String.ofList).map String.toList = ps := by
  simp [List.map_map, Function.comp_def]

/-- Pieces that are not empty are the texts that are not empty. -/
theorem map_ofList_filter (ps : List (List Char)) :
    (ps.filter (· ≠ [])).map String.ofList = (ps.map String.ofList).filter (· ≠ "") := by
  rw [List.filter_map]
  refine congrArg (List.map String.ofList) (List.filter_congr fun p _ => ?_)
  exact decide_eq_decide.mpr (not_congr String.ofList_eq_empty_iff.symm)

/-- Joining the segments of a text gives it back. -/
theorem joined_segmentsOf (text : String) : joined (segmentsOf text) = text := by
  rw [joined, segmentsOf, map_toList_ofList, join_pieces, String.ofList_toList]

/-- A separator divides the segments before it from those after it. -/
theorem segmentsOf_append (a b : String) :
    segmentsOf (a ++ String.singleton separator ++ b) = segmentsOf a ++ segmentsOf b := by
  simp only [segmentsOf, String.toList_append, String.toList_singleton, List.append_assoc,
    List.singleton_append, pieces_append_cons, List.map_append]

/-- The segments of joined segments are these. -/
theorem segmentsOf_joined {segments : List String} (hne : segments ≠ []) (h : Plain segments) :
    segmentsOf (joined segments) = segments := by
  have hpieces : ∀ p ∈ segments.map String.toList, separator ∉ p := by
    intro p hp
    obtain ⟨s, hs, rfl⟩ := List.mem_map.mp hp
    exact h s hs
  rw [segmentsOf, joined, String.toList_ofList, pieces_join (by simpa using hne) hpieces,
    map_ofList_toList]

/-- Segments with a first one that is not empty do not join to the empty text. -/
theorem joined_ne_empty {segments : List String} (hne : segments ≠ [])
    (hvalid : ∀ s ∈ segments, ValidName s) : joined segments ≠ "" := by
  intro h
  have hsegments := segmentsOf_joined hne (plain_of_valid hvalid)
  rw [h] at hsegments
  exact (hvalid "" (by rw [← hsegments]; decide)).1 rfl

/-! ### Spots -/

/-- Where a table is: the path to its namespace, and its own name. -/
abbrev Spot := List String × String

namespace Spot

/-- The path to a table and its name in one list. -/
def segments (spot : Spot) : List String := spot.1 ++ [spot.2]

/-- All segments are valid names. -/
def Valid (spot : Spot) : Prop := ∀ s ∈ spot.segments, ValidName s

/-- The name that the backend knows a table by. -/
def name (spot : Spot) : String := joined spot.segments

/-- The spot of a table that the backend knows by a given name. -/
def ofName (name : String) : Spot :=
  ((segmentsOf name).dropLast, (segmentsOf name).getLast (segmentsOf_ne_nil name))

/-- A table has a name of its own. -/
theorem segments_ne_nil (spot : Spot) : spot.segments ≠ [] := by
  simp [segments]

/-- The segments tell the path and the name of a table apart. -/
theorem segments_inj {a b : Spot} (h : a.segments = b.segments) : a = b := by
  obtain ⟨hpath, htable⟩ := List.append_inj' h rfl
  exact Prod.ext hpath (List.cons.inj htable).1

/-- A spot is valid if its path and its table are. -/
theorem valid_iff {path : List String} {table : String} :
    Valid (path, table) ↔ (∀ s ∈ path, ValidName s) ∧ ValidName table := by
  simp only [Valid, segments, List.mem_append, List.mem_singleton]
  constructor
  · intro h
    exact ⟨fun s hs => h s (.inl hs), h table (.inr rfl)⟩
  · rintro ⟨hpath, htable⟩ s (hs | rfl)
    · exact hpath s hs
    · exact htable

/-- The segments of a valid spot do not contain the separator. -/
theorem Valid.plain {spot : Spot} (h : spot.Valid) : Plain spot.segments :=
  plain_of_valid h

/-- The segments of the spot of a backend name are those of the name. -/
theorem segments_ofName (name : String) : (ofName name).segments = segmentsOf name :=
  List.dropLast_append_getLast (segmentsOf_ne_nil name)

/-- **Every backend name spells a spot.** -/
theorem name_ofName (name : String) : (ofName name).name = name := by
  rw [Spot.name, segments_ofName, joined_segmentsOf]

/-- Cutting the backend name of a spot gives its segments. -/
theorem segmentsOf_name {spot : Spot} (h : Plain spot.segments) :
    segmentsOf spot.name = spot.segments :=
  segmentsOf_joined spot.segments_ne_nil h

/-- **Nothing is lost in backend names.** -/
theorem ofName_name {spot : Spot} (h : Plain spot.segments) : ofName spot.name = spot :=
  segments_inj (by rw [segments_ofName, segmentsOf_name h])

/-- Different spots have different backend names. -/
theorem name_inj {a b : Spot} (ha : Plain a.segments) (hb : Plain b.segments)
    (h : a.name = b.name) : a = b := by
  rw [← ofName_name ha, h, ofName_name hb]

/-- **The tables beneath a spot.** A backend name lies beneath another exactly if its
    segments begin with those of the other. -/
theorem inSubtree_name_iff {base spot : Spot} (hb : base.Valid) (hs : Plain spot.segments) :
    inSubtree spot.name base.name = true ↔ base.segments <+: spot.segments := by
  rw [inSubtree_iff]
  constructor
  · rintro ⟨-, heq | ⟨rest, heq⟩⟩
    · rw [name_inj hs hb.plain heq]
    · -- Cutting the name cuts it at the separator behind `base`.
      have hsegments := segmentsOf_name hs
      rw [heq, segmentsOf_append, segmentsOf_name hb.plain] at hsegments
      exact ⟨_, hsegments⟩
  · rintro ⟨back, heq⟩
    refine ⟨joined_ne_empty base.segments_ne_nil hb, ?_⟩
    -- No segments behind those of `base` is `base` itself.
    by_cases hback : back = []
    · left
      rw [name, ← heq, hback, List.append_nil, name]
    · right
      refine ⟨joined back, String.toList_inj.mp ?_⟩
      rw [name, ← heq, joined, List.map_append,
        join_append separator (by simp [segments]) (by simpa using hback)]
      simp [name, joined]

/-- The system table is not beneath a valid spot, since its first segment is empty. -/
theorem not_inSubtree_name {spot : Spot} (h : spot.Valid) :
    inSubtree systemTable spot.name = false := by
  have hsystem : (ofName systemTable).segments = ["", "kvnest"] := by decide
  rw [Bool.eq_false_iff, ne_eq, ← name_ofName systemTable,
    inSubtree_name_iff h (by rw [segments_ofName]; exact plain_segmentsOf _), hsystem]
  intro hprefix
  obtain ⟨s, rest, hs⟩ := List.exists_cons_of_ne_nil spot.segments_ne_nil
  rw [hs, List.cons_prefix_cons] at hprefix
  exact (h s (by simp [hs])).1 hprefix.1

/-- No valid spot has the name of the system table. -/
theorem name_ne_systemTable {spot : Spot} (h : spot.Valid) : spot.name ≠ systemTable := by
  intro heq
  have hself : inSubtree systemTable spot.name = true :=
    inSubtree_iff.mpr ⟨joined_ne_empty spot.segments_ne_nil h, .inl heq.symm⟩
  rw [not_inSubtree_name h] at hself
  exact absurd hself (by simp)

end Spot

/-! ### Places -/

namespace Namespace

/-- The place at the end of a path. -/
def ofPath (path : List String) : Namespace :=
  ⟨String.ofList (path.flatMap fun s => s.toList ++ [separator])⟩

/-- The stem of a place one segment further. -/
theorem stem_ofPath_concat (path : List String) (s : String) :
    (ofPath path).stem ++ terminated s = (ofPath (path ++ [s])).stem := by
  apply String.toList_inj.mp
  simp [ofPath, terminated]

/-- The stem of a place begins with the first segment of its path. -/
theorem toList_stem_cons (s : String) (path : List String) :
    (ofPath (s :: path)).stem.toList = s.toList ++ separator :: (ofPath path).stem.toList := by
  simp [ofPath]

/-- Segments after the stem of a place make up the segments from the top. -/
theorem stem_append_joined (path : List String) {rest : List String} (h : rest ≠ []) :
    (ofPath path).stem ++ joined rest = joined (path ++ rest) := by
  apply String.toList_inj.mp
  induction path with
  | nil => simp [ofPath]
  | cons s path ih =>
    rw [String.toList_append] at ih ⊢
    rw [toList_stem_cons, List.append_assoc, List.cons_append, ih, List.cons_append,
      toList_joined_cons s (by simp [h])]

/-- Cutting what comes after the stem of a place goes on from the segments of its path. -/
theorem segmentsOf_stem_append {path : List String} (h : Plain path) (rest : String) :
    segmentsOf ((ofPath path).stem ++ rest) = path ++ segmentsOf rest := by
  induction path with
  | nil => simp [ofPath]
  | cons s path ih =>
    have hs : separator ∉ s.toList := h s (by simp)
    have htail := ih fun r hr => h r (by simp [hr])
    simp only [segmentsOf, String.toList_append] at htail ⊢
    rw [toList_stem_cons, List.append_assoc, List.cons_append, pieces_append_cons,
      pieces_of_not_mem hs, List.map_append, htail]
    simp

/-- The place below a place is one segment further. -/
theorem sub_ofPath (path : List String) (name : String) :
    (ofPath path).sub name = (validateName name).map fun _ => ofPath (path ++ [name]) := by
  unfold sub
  rw [stem_ofPath_concat]
  cases validateName name <;> rfl

/-- A shared bucket is two segments below the top. -/
theorem shared_eq (name : String) :
    shared name = (validateName name).map fun _ => ofPath [sharedRoot, name] := by
  have hstem : terminated sharedRoot ++ terminated name = (ofPath [sharedRoot, name]).stem := by
    rw [show [sharedRoot, name] = [sharedRoot] ++ [name] from rfl, ← stem_ofPath_concat]
    refine congrArg (· ++ terminated name) (String.toList_inj.mp ?_)
    simp [ofPath, terminated]
  unfold shared
  rw [hstem]
  cases validateName name <;> rfl

/-- The backend name of a table of a place is that of its spot. -/
theorem qualify_ofPath (path : List String) (table : String) :
    (ofPath path).qualify table = (validateName table).map fun _ => Spot.name (path, table) := by
  have hname : (ofPath path).stem ++ table = Spot.name (path, table) := by
    have h := stem_append_joined path (List.cons_ne_nil table [])
    simpa [joined, join, Spot.name, Spot.segments] using h
  unfold qualify
  rw [hname]
  cases validateName table <;> rfl

/-! ### What lies at a place and below -/

/-- Texts behind one stem are ordered as they are without it. -/
theorem stem_append_lt_iff {stem a b : String} : stem ++ a < stem ++ b ↔ a < b := by
  simp only [String.lt_iff, String.toList_append]
  constructor
  · intro h
    rcases lt_trichotomy a.toList b.toList with hab | heq | hba
    · exact hab
    · exact absurd (heq ▸ h) (lt_irrefl _)
    · exact absurd h (List.append_left_lt hba).asymm
  · exact List.append_left_lt

/-- A name has what follows the stem of a place, if that is not nothing. -/
theorem relative?_eq_some_iff {ns : Namespace} {name rest : String} :
    ns.relative? name = some rest ↔ rest ≠ "" ∧ name = ns.stem ++ rest := by
  unfold relative?
  constructor
  · intro h
    split at h
    · next c cs hp =>
      rw [List.isPrefixOf?_eq_some_iff_append_eq] at hp
      obtain rfl := Option.some.inj h
      refine ⟨by simp [← String.toList_inj], String.toList_inj.mp ?_⟩
      rw [String.toList_append, String.toList_ofList, hp]
    · exact absurd h (by simp)
  · rintro ⟨hne, rfl⟩
    obtain ⟨c, cs, hcs⟩ := List.exists_cons_of_ne_nil fun h => hne (String.toList_eq_nil_iff.mp h)
    have hp : ns.stem.toList.isPrefixOf? (ns.stem ++ rest).toList = some (c :: cs) := by
      rw [List.isPrefixOf?_eq_some_iff_append_eq, String.toList_append, hcs]
    rw [hp]
    show some (String.ofList (c :: cs)) = some rest
    rw [← hcs, String.ofList_toList]

/-- **The names below a place.** What a backend name has after the stem of a place is
    what its segments have after the path to the place, unless this is an empty name. -/
theorem relative?_name_iff {path : List String} (hpath : Plain path) {spot : Spot}
    (hspot : Plain spot.segments) {rest : String} :
    (ofPath path).relative? spot.name = some rest ↔
      ∃ back, back ≠ [] ∧ back ≠ [""] ∧ spot.segments = path ++ back ∧ rest = joined back := by
  rw [relative?_eq_some_iff]
  constructor
  · rintro ⟨hrest, hname⟩
    -- What stands behind the stem is cut into segments of its own.
    have hsegments := Spot.segmentsOf_name hspot
    rw [hname, segmentsOf_stem_append hpath] at hsegments
    have hjoined := joined_segmentsOf rest
    refine ⟨segmentsOf rest, segmentsOf_ne_nil rest, ?_, hsegments.symm, hjoined.symm⟩
    intro h
    rw [h] at hjoined
    exact hrest hjoined.symm
  · rintro ⟨back, hne, hnamed, hsplit, rfl⟩
    have hplain : Plain back := fun s hs => hspot s (by simp [hsplit, hs])
    constructor
    · intro h
      -- Only the empty segment joins to nothing.
      have hback := segmentsOf_joined hne hplain
      rw [h] at hback
      exact hnamed (by rw [← hback]; decide)
    · rw [Spot.name, hsplit, stem_append_joined path hne]

/-- The first segment of joined segments. -/
theorem firstSegment_joined {s : String} (hs : separator ∉ s.toList) (rest : List String) :
    firstSegment (joined (s :: rest)) = s := by
  have hall : ∀ c ∈ s.toList, decide (c ≠ separator) = true := by
    intro c hc
    exact decide_eq_true fun heq => hs (heq ▸ hc)
  unfold firstSegment
  by_cases hrest : rest = []
  · rw [hrest, show joined [s] = s from String.ofList_toList, List.takeWhile_eq_self_iff.mpr hall,
      String.ofList_toList]
  · rw [toList_joined_cons s hrest, List.takeWhile_append_of_pos hall]
    simp

/-- Joined segments reach into a namespace below if there are two of them. -/
theorem isNested_joined {s : String} (hs : separator ∉ s.toList) (rest : List String) :
    isNested (joined (s :: rest)) = !rest.isEmpty := by
  unfold isNested
  by_cases hrest : rest = []
  · rw [hrest, show joined [s] = s from String.ofList_toList]
    simpa using hs
  · rw [toList_joined_cons s hrest]
    simpa using hrest

end Namespace

end TableVault
