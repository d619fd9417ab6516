import TableVault.Proofs.Text.Utf8Order
import TableVault.Proofs.Tree.Path

namespace TableVault

open Storage

/-!
# Backend names are divided

A place sees a list of backend names in two parts: the names of its tables, and the names that lie
in namespaces below. Nothing is assumed of the names, which may be ones that no store makes.

* `Beyond` — the names that go on behind a stem;
* `Divided` — the two parts of a list of names, name by name;
* `Divided.sublists` and `Divided.perm` — with the stem in front the entries are names of the list
  again, in its order, and all that go on behind the stem are there;
* `Namespace.divided_iff` — the two listings of a place are these parts, and nothing else is;
* `Namespace.ordered_listings` — they are in the order of their bytes if the names are;
* `LeadsInto` and `FirstOccurrences` — the namespace that an entry lies in, and the elements of a
  list where they come first; `firstOccurrences_eraseDups` finds these by erasing duplicates;
* `listings_divide_names` — all of this about the listings of a place.
-/

/-! ### Names behind a stem -/

/-- A name goes on behind a stem. -/
def Beyond (stem name : String) : Prop := ∃ rest, rest ≠ "" ∧ name = stem ++ rest

instance (stem name : String) : Decidable (Beyond stem name) :=
  decidable_of_iff (((⟨stem⟩ : Namespace).relative? name).isSome = true) (by
    simp only [Option.isSome_iff_exists, Namespace.relative?_eq_some_iff, Beyond])

/-- What goes on behind the stem of a place has no rest if it does not. -/
theorem Namespace.relative?_eq_none_iff {ns : Namespace} {name : String} :
    ns.relative? name = none ↔ ¬ Beyond ns.stem name := by
  rw [Option.eq_none_iff_forall_ne_some]
  simp only [Beyond, ne_eq, Namespace.relative?_eq_some_iff, not_exists]

/-- Behind one stem the bytes of texts are ordered as they are without it. -/
theorem encode_stem_append_le_iff {stem a b : String} :
    Utf8.encode (stem ++ a) ≤ Utf8.encode (stem ++ b) ↔ Utf8.encode a ≤ Utf8.encode b := by
  simp only [← List.not_lt, Utf8.encode_lt_iff, Namespace.stem_append_lt_iff]

/-- Names are in the order of their UTF-8 bytes, and may come more than once. -/
def ByteOrdered (names : List String) : Prop :=
  names.Pairwise fun a b => Utf8.encode a ≤ Utf8.encode b

/-! ### The two parts of a list -/

/-- A list of names is divided by a stem. A name that goes on behind the stem has one entry, which
    is the rest: among the nested ones if it has a separator, else among the tables. All other
    names have none. -/
inductive Divided (stem : String) : List String → List String → List String → Prop
  | nil : Divided stem [] [] []
  | elsewhere {name : String} {names tables nested : List String} (h : ¬ Beyond stem name) :
      Divided stem names tables nested → Divided stem (name :: names) tables nested
  | table {rest : String} {names tables nested : List String} (hne : rest ≠ "")
      (h : separator ∉ rest.toList) :
      Divided stem names tables nested →
        Divided stem ((stem ++ rest) :: names) (rest :: tables) nested
  | nested {rest : String} {names tables nested : List String} (h : separator ∈ rest.toList) :
      Divided stem names tables nested →
        Divided stem ((stem ++ rest) :: names) tables (rest :: nested)

namespace Divided

variable {stem : String} {names tables nested : List String}

/-- Behind the stem the entries of either part are names of the list, in its order. -/
theorem sublists (h : Divided stem names tables nested) :
    (tables.map (stem ++ ·)).Sublist names ∧ (nested.map (stem ++ ·)).Sublist names := by
  induction h with
  | nil => exact ⟨.slnil, .slnil⟩
  | elsewhere _ _ ih => exact ⟨ih.1.cons _, ih.2.cons _⟩
  | table _ _ _ ih => exact ⟨ih.1.cons_cons _, ih.2.cons _⟩
  | nested _ _ ih => exact ⟨ih.1.cons _, ih.2.cons_cons _⟩

/-- A text with a separator is not empty. -/
private theorem ne_empty_of_separator {rest : String} (h : separator ∈ rest.toList) : rest ≠ "" := by
  rintro rfl
  simp at h

/-- Both parts together are the names that go on behind the stem. -/
theorem perm (h : Divided stem names tables nested) :
    ((tables ++ nested).map (stem ++ ·)).Perm (names.filter (Beyond stem ·)) := by
  induction h with
  | nil => exact .nil
  | elsewhere hname _ ih => rwa [List.filter_cons_of_neg (by simpa using hname)]
  | table hne _ _ ih =>
    rw [List.filter_cons_of_pos (by simpa using ⟨_, hne, rfl⟩)]
    exact ih.cons _
  | nested hsep _ ih =>
    rw [List.filter_cons_of_pos (by simpa using ⟨_, ne_empty_of_separator hsep, rfl⟩),
      List.map_append, List.map_cons]
    rw [List.map_append] at ih
    exact List.perm_middle.trans (ih.cons _)

end Divided

/-! ### The listings of a place -/

namespace Namespace

variable {ns : Namespace} {names : List String}

/-- A place lists the tables of a list of names and what lies in namespaces below as the two parts
    of the list. -/
theorem divided_listings (ns : Namespace) (names : List String) :
    Divided ns.stem names (ns.childTables names) (ns.subNamespaces false names) := by
  induction names with
  | nil => exact .nil
  | cons name names ih =>
    simp only [childTables, subNamespaces, Bool.false_eq_true, if_false, List.filterMap_cons] at ih ⊢
    cases hrest : ns.relative? name with
    | none => exact .elsewhere (relative?_eq_none_iff.mp hrest) ih
    | some rest =>
      obtain ⟨hne, rfl⟩ := relative?_eq_some_iff.mp hrest
      cases hnested : isNested rest with
      | false =>
        simp only [List.filter_cons, hnested, Bool.not_false, if_true, Bool.false_eq_true, if_false]
        exact .table hne (by simpa [isNested] using hnested) ih
      | true =>
        simp only [List.filter_cons, hnested, Bool.not_true, if_true, Bool.false_eq_true, if_false]
        exact .nested (by simpa [isNested] using hnested) ih

/-- No other lists are the two parts. -/
theorem listings_of_divided {tables nested : List String} (h : Divided ns.stem names tables nested) :
    tables = ns.childTables names ∧ nested = ns.subNamespaces false names := by
  have hrest : ∀ {rest : String}, rest ≠ "" → ns.relative? (ns.stem ++ rest) = some rest :=
    fun hne => relative?_eq_some_iff.mpr ⟨hne, rfl⟩
  simp only [childTables, subNamespaces, Bool.false_eq_true, if_false]
  induction h with
  | nil => exact ⟨rfl, rfl⟩
  | elsewhere hname _ ih => rwa [List.filterMap_cons_none (relative?_eq_none_iff.mpr hname)]
  | @table rest _ _ _ hne hsep _ ih =>
    have hnested : isNested rest = false := by simpa [isNested] using hsep
    rw [List.filterMap_cons_some (hrest hne), List.filter_cons_of_pos (by simp [hnested]),
      List.filter_cons_of_neg (by simp [hnested])]
    exact ⟨congrArg _ ih.1, ih.2⟩
  | @nested rest _ _ _ hsep _ ih =>
    have hnested : isNested rest = true := by simpa [isNested] using hsep
    rw [List.filterMap_cons_some (hrest (Divided.ne_empty_of_separator hsep)),
      List.filter_cons_of_neg (by simp [hnested]), List.filter_cons_of_pos hnested]
    exact ⟨ih.1, congrArg _ ih.2⟩

/-- **The listings are the parts.** A list of names is divided into the tables of a place and what
    lies in namespaces below, and in no other way. -/
theorem divided_iff {tables nested : List String} :
    Divided ns.stem names tables nested ↔
      tables = ns.childTables names ∧ nested = ns.subNamespaces false names := by
  constructor
  · exact listings_of_divided
  · rintro ⟨rfl, rfl⟩
    exact divided_listings ns names

/-- Both listings are in the order of their bytes if the names are. -/
theorem ordered_listings (h : ByteOrdered names) :
    ByteOrdered (ns.childTables names) ∧ ByteOrdered (ns.subNamespaces false names) := by
  obtain ⟨htables, hnested⟩ := (divided_listings ns names).sublists
  have hpart : ∀ {part : List String}, (part.map (ns.stem ++ ·)).Sublist names → ByteOrdered part := by
    intro part hpart
    have hordered := h.sublist hpart
    rw [List.pairwise_map] at hordered
    exact hordered.imp encode_stem_append_le_iff.mp
  exact ⟨hpart htables, hpart hnested⟩

end Namespace

/-! ### Namespaces right below -/

/-- A name with a separator in it lies in a namespace, whose name is what comes before the first
    separator. -/
def LeadsInto (name first : String) : Prop :=
  separator ∉ first.toList ∧ ∃ more, name = first ++ String.singleton separator ++ more

/-- The elements of a list, each where it comes first. -/
structure FirstOccurrences (all once : List String) : Prop where
  mem : ∀ x, x ∈ once ↔ x ∈ all
  order : once.Pairwise fun a b => all.idxOf a < all.idxOf b

/-- The first segment of a name with a separator is the namespace that it lies in. -/
theorem Namespace.leadsInto_firstSegment {rest : String} (h : isNested rest = true) :
    LeadsInto rest (firstSegment rest) := by
  obtain ⟨first, back, hsegments⟩ := List.exists_cons_of_ne_nil (segmentsOf_ne_nil rest)
  have hfirst : separator ∉ first.toList := plain_segmentsOf rest first (by simp [hsegments])
  have hjoined := joined_segmentsOf rest
  rw [hsegments] at hjoined
  rw [← hjoined, isNested_joined hfirst] at h
  have hback : back ≠ [] := by simpa using h
  rw [← hjoined, firstSegment_joined hfirst]
  refine ⟨hfirst, joined back, String.toList_inj.mp ?_⟩
  rw [toList_joined_cons first hback]
  simp

/-- Erasing the duplicates leaves what has not come before: one more element is left only if it is
    none of those before it. -/
theorem eraseDups_concat (all : List String) (x : String) :
    (all ++ [x]).eraseDups = if x ∈ all then all.eraseDups else all.eraseDups ++ [x] := by
  rw [List.eraseDups_append]
  by_cases h : x ∈ all
  · rw [if_pos h, show [x].removeAll all = [] by simp [List.removeAll, h]]
    simp
  · rw [if_neg h, show [x].removeAll all = [x] by simp [List.removeAll, h]]
    simp [List.eraseDups_cons]

/-- **Duplicates are erased where they come again.** -/
theorem firstOccurrences_eraseDups (all : List String) : FirstOccurrences all all.eraseDups := by
  refine ⟨fun x => List.mem_eraseDups, ?_⟩
  -- The list is taken from its end, since what is kept of an element depends on those before it.
  induction all using List.reverseRecOn with
  | nil => exact .nil
  | append_singleton all x ih =>
    -- What was there before is still found where it was.
    have hkept : all.eraseDups.Pairwise fun a b => (all ++ [x]).idxOf a < (all ++ [x]).idxOf b := by
      refine ih.imp_of_mem fun ha hb hlt => ?_
      rwa [List.idxOf_append_of_mem (List.mem_eraseDups.mp ha),
        List.idxOf_append_of_mem (List.mem_eraseDups.mp hb)]
    rw [eraseDups_concat]
    by_cases h : x ∈ all
    · rwa [if_pos h]
    · rw [if_neg h, List.pairwise_append]
      refine ⟨hkept, List.pairwise_singleton _ x, fun a ha b hb => ?_⟩
      obtain rfl := List.mem_singleton.mp hb
      have ha' := List.mem_eraseDups.mp ha
      have hlt := List.idxOf_lt_length_of_mem ha'
      rw [List.idxOf_append_of_mem ha', List.idxOf_append_of_notMem h]
      omega

/-- No other list has every element where it comes first. -/
theorem FirstOccurrences.unique {all once other : List String} (h : FirstOccurrences all once)
    (h' : FirstOccurrences all other) : once = other := by
  have hirrefl : Std.Irrefl fun a b => all.idxOf a < all.idxOf b := ⟨fun a => lt_irrefl _⟩
  have hantisymm : Std.Antisymm fun a b => all.idxOf a < all.idxOf b :=
    ⟨fun a b hab hba => absurd hab hba.asymm⟩
  exact h.order.eq_of_mem_iff h'.order fun x => (h.mem x).trans (h'.mem x).symm

/-- **The listings divide the names.** Take any place and any list of names. A name that goes on
    behind the stem of the place has exactly one entry, which is the rest of it: in the tables if it
    has no separator, else in what lies in namespaces below. Other names have none. Both listings
    keep the order of the names, and are in the order of their bytes if the names are; with the stem
    in front the entries are the names that go on behind it. The namespaces right below are what the
    nested entries have before their first separators, each where it comes first. -/
theorem listings_divide_names (ns : Namespace) (names : List String) :
    (∀ tables nested, Divided ns.stem names tables nested ↔
      tables = ns.childTables names ∧ nested = ns.subNamespaces false names) ∧
    ((ns.childTables names).map (ns.stem ++ ·)).Sublist names ∧
    ((ns.subNamespaces false names).map (ns.stem ++ ·)).Sublist names ∧
    ((ns.childTables names ++ ns.subNamespaces false names).map (ns.stem ++ ·)).Perm
      (names.filter (Beyond ns.stem ·)) ∧
    (∃ firsts, List.Forall₂ LeadsInto (ns.subNamespaces false names) firsts ∧
      ∀ once, FirstOccurrences firsts once ↔ once = ns.subNamespaces true names) ∧
    (ByteOrdered names →
      ByteOrdered (ns.childTables names) ∧ ByteOrdered (ns.subNamespaces false names)) := by
  have hdivided := ns.divided_listings names
  refine ⟨fun _ _ => Namespace.divided_iff, hdivided.sublists.1, hdivided.sublists.2,
    hdivided.perm, ?_, Namespace.ordered_listings⟩
  refine ⟨(ns.subNamespaces false names).map Namespace.firstSegment, ?_, fun once => ?_⟩
  · rw [List.forall₂_map_right_iff, List.forall₂_same]
    exact fun rest hrest => Namespace.leadsInto_firstSegment (List.mem_filter.mp hrest).2
  · have hfirst := firstOccurrences_eraseDups
      ((ns.subNamespaces false names).map Namespace.firstSegment)
    constructor
    · exact fun h => h.unique hfirst
    · rintro rfl
      exact hfirst

/-- Names that no store makes, in the order of their bytes and one of them twice: those below `a`
    are listed there, and none is listed as a table by mistake. -/
theorem listings_divide_names_unmade :
    let names := ["", "\u001fkvnest", "a", "a\u001f", "a\u001f\u001f", "a\u001fb\u001fy",
      "a\u001fb\u001fz", "a\u001fx", "a\u001fx", "ab\u001fx"]
    Divided "a\u001f" names ["x", "x"] ["\u001f", "b\u001fy", "b\u001fz"] ∧
      ByteOrdered names ∧ ByteOrdered ((⟨"a\u001f"⟩ : Namespace).childTables names) := by
  intro names
  obtain ⟨hdivided, -, -, -, -, hordered⟩ := listings_divide_names ⟨"a\u001f"⟩ names
  have hnames : ByteOrdered names := by unfold ByteOrdered; decide +kernel
  exact ⟨(hdivided _ _).mpr (by decide +kernel), hnames, (hordered hnames).1⟩

end TableVault
