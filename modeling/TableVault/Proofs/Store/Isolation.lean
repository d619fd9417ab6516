import TableVault.Proofs.Tree.Refinement

namespace TableVault

open Storage Record

/-!
# Clients in different namespaces do not meet

A client has a handle at the end of a path and reaches further handles from there without
shared buckets. It sees and changes only what has the path in front of its name.

* `Within` and `SameWithin` — the names with a path in front, and tables that agree on them;
* `Confined` — an effect that depends on these names only, and changes no others;
* `Request.confined` and `Call.confined` — requests at the end of a longer path are confined,
  and so are calls that do not go to buckets;
* `clients_do_not_interfere` — clients at paths of which none begins with another are answered
  as if each of them were alone, and the order of their turns does not matter.
-/

/-! ### Names and paths -/

/-- A name has a path in front. -/
def Within (path : List String) (name : String) : Prop := path <+: segmentsOf name

/-- Two tables are the same where names have a path in front. -/
def SameWithin (path : List String) (ts us : Tables) : Prop :=
  ∀ name, Within path name → ts[name]? = us[name]?

/-- A name has two paths in front only if one of these begins with the other. -/
theorem Within.comparable {p q : List String} {name : String} (hp : Within p name)
    (hq : Within q name) : p <+: q ∨ q <+: p :=
  List.prefix_or_prefix_of_prefix hp hq

/-- The tables of a place at or below a path have the path in front. -/
theorem within_of_qualify {path below : List String} {table name : String} (hpath : path <+: below)
    (hvalid : ∀ s ∈ below, ValidName s) (h : (Namespace.ofPath below).qualify table = .ok name) :
    Within path name := by
  rw [Namespace.qualify_ofPath] at h
  obtain ⟨u, htable, rfl⟩ := ok_of_map h
  have hspot : Spot.Valid (below, table) :=
    Spot.valid_iff.mpr ⟨hvalid, validateName_eq_ok_iff.mp htable⟩
  rw [Within, Spot.segmentsOf_name hspot.plain]
  exact hpath.trans (List.prefix_append below [table])

/-- So does everything beneath such a table. -/
theorem within_of_inSubtree {path : List String} {base name : String} (hbase : Within path base)
    (h : inSubtree name base = true) : Within path name := by
  obtain ⟨-, rfl | ⟨rest, rfl⟩⟩ := inSubtree_iff.mp h
  · exact hbase
  · rw [Within, segmentsOf_append]
    exact hbase.trans (List.prefix_append _ _)

/-- And so does everything that begins with the stem of such a place. -/
theorem within_of_relative {path below : List String} {name rest : String} (hpath : path <+: below)
    (hplain : Plain below) (h : (Namespace.ofPath below).relative? name = some rest) :
    Within path name := by
  obtain ⟨-, rfl⟩ := Namespace.relative?_eq_some_iff.mp h
  rw [Within, Namespace.segmentsOf_stem_append hplain]
  exact hpath.trans (List.prefix_append below _)

/-! ### Confined effects -/

/-- An effect that sees and changes only what has a path in front of its name. -/
structure Confined {α : Type} (path : List String)
    (effect : Tables → Except VaultError α × Tables) : Prop where
  /-- The answer, and what is left under such names, depend on what was there under them. -/
  inside : ∀ ts us, SameWithin path ts us →
    (effect ts).1 = (effect us).1 ∧ SameWithin path (effect ts).2 (effect us).2
  /-- Under all other names everything stays. -/
  outside : ∀ ts name, ¬ Within path name → (effect ts).2[name]? = ts[name]?

namespace Confined

variable {path : List String} {α β : Type}

/-- Looking is confined if what is seen is. -/
theorem look {look : Tables → Except VaultError α}
    (h : ∀ ts us, SameWithin path ts us → look ts = look us) :
    Confined path fun ts => (look ts, ts) :=
  ⟨fun ts us hsame => ⟨h ts us hsame, hsame⟩, fun _ _ _ => rfl⟩

/-- A change is confined if what it leaves is, name by name. -/
theorem change {change : Tables → Tables}
    (hinside : ∀ ts us, SameWithin path ts us → SameWithin path (change ts) (change us))
    (houtside : ∀ ts name, ¬ Within path name → (change ts)[name]? = ts[name]?) :
    Confined path fun ts => (.ok (), change ts) :=
  ⟨fun ts us hsame => ⟨rfl, hinside ts us hsame⟩, houtside⟩

/-- A check that does not look at the tables does not matter. -/
theorem guarded {check : Except VaultError β} {f : β → Tables → Except VaultError α × Tables}
    (hf : ∀ b, check = .ok b → Confined path (f b)) :
    Confined path fun ts => TableVault.guarded ts check fun b => f b ts := by
  cases check with
  | ok b => exact hf b rfl
  | error e => exact look fun _ _ _ => rfl

/-- Nor does the form of the answer. -/
theorem mapAnswer {effect : Tables → Except VaultError α × Tables} (g : α → Answer)
    (h : Confined path effect) : Confined path fun ts => TableVault.mapAnswer g (effect ts) := by
  refine ⟨fun ts us hsame => ?_, h.outside⟩
  obtain ⟨hanswer, hleft⟩ := h.inside ts us hsame
  exact ⟨congrArg (·.map g) hanswer, hleft⟩

variable {name : String}

/-- The records of a table within the path are the same. -/
theorem recordsOf_eq {ts us : Tables} (hsame : SameWithin path ts us) (h : Within path name) :
    ts.recordsOf name = us.recordsOf name := by
  rw [Tables.recordsOf_eq, Tables.recordsOf_eq, hsame name h]

/-- And so is every record of it. -/
theorem find?_eq {ts us : Tables} (hsame : SameWithin path ts us) (h : Within path name)
    (key : String) : ts.find? name key = us.find? name key := by
  rw [Tables.find?, Tables.find?, recordsOf_eq hsame h]

/-- Putting a record into a table within the path is confined. -/
theorem put (h : Within path name) (key : String) (record : Bytes) :
    Confined path fun ts => (.ok (), ts.put name key record) := by
  refine change (fun ts us hsame other hother => ?_) fun ts other hother => ?_
  · rw [Tables.getElem?_put, Tables.getElem?_put, recordsOf_eq hsame h, hsame other hother]
  · rw [Tables.getElem?_put, if_neg]
    rintro rfl
    exact hother h

/-- Removing a record from a table within the path is confined. -/
theorem remove (h : Within path name) (key : String) :
    Confined path fun ts => (.ok (), ts.remove name key) := by
  refine change (fun ts us hsame other hother => ?_) fun ts other hother => ?_
  · rw [Tables.getElem?_remove, Tables.getElem?_remove, hsame name h, hsame other hother]
  · rw [Tables.getElem?_remove, if_neg]
    rintro rfl
    exact hother h

/-- Dropping a table within the path is confined. -/
theorem dropSubtree (h : Within path name) :
    Confined path fun ts => (.ok (), ts.dropSubtree name) := by
  refine change (fun ts us hsame other hother => ?_) fun ts other hother => ?_
  · rw [Tables.getElem?_dropSubtree, Tables.getElem?_dropSubtree, hsame other hother]
  · rw [Tables.getElem?_dropSubtree, if_neg]
    exact fun hbeneath => hother (within_of_inSubtree h hbeneath)

end Confined

/-! ### Requests and calls -/

section Calls

variable {e : Encoder} {path below : List String}

/-- What the tables have at or below a place is the same if they are the same there. -/
theorem filterMap_relative_eq (hpath : path <+: below) (hplain : Plain below) {ts us : Tables}
    (hsame : SameWithin path ts us) :
    ts.names.filterMap (Namespace.ofPath below).relative? =
      us.names.filterMap (Namespace.ofPath below).relative? := by
  -- Both lists increase strictly, so they are compared by their members.
  have hmem : ∀ {ts us : Tables}, SameWithin path ts us → ∀ rest,
      rest ∈ ts.names.filterMap (Namespace.ofPath below).relative? →
      rest ∈ us.names.filterMap (Namespace.ofPath below).relative? := by
    intro ts us hsame rest hrest
    obtain ⟨name, hname, hrelative⟩ := List.mem_filterMap.mp hrest
    obtain ⟨hts, hne⟩ := ts.mem_names.mp hname
    refine List.mem_filterMap.mpr ⟨name, us.mem_names.mpr ⟨?_, hne⟩, hrelative⟩
    rw [← Std.ExtTreeMap.isSome_getElem?_iff_mem] at hts ⊢
    rwa [← hsame name (within_of_relative hpath hplain hrelative)]
  refine List.Pairwise.eq_of_mem_iff (pairwise_relative _ ts) (pairwise_relative _ us) fun rest => ?_
  exact ⟨hmem hsame rest, hmem (fun name hname => (hsame name hname).symm) rest⟩

/-- A request to a table of a place at or below a path is confined if what it does under the
    name of the table is. -/
theorem Confined.onTable {α : Type} (hpath : path <+: below) (hvalid : ∀ s ∈ below, ValidName s)
    (g : α → Answer) (table : String) {f : String → Tables → Except VaultError α × Tables}
    (hf : ∀ name, Within path name → Confined path (f name)) :
    Confined path fun ts => TableVault.mapAnswer g
      (TableVault.guarded ts ((Namespace.ofPath below).qualify table) fun name => f name ts) :=
  .mapAnswer g (.guarded fun name hname => hf name (within_of_qualify hpath hvalid hname))

/-- Looking at such a table is confined if what is seen under its name is. -/
theorem Confined.lookAt {α : Type} (hpath : path <+: below) (hvalid : ∀ s ∈ below, ValidName s)
    (g : α → Answer) (table : String) {look : Tables → String → Except VaultError α}
    (hlook : ∀ ts us name, SameWithin path ts us → Within path name → look ts name = look us name) :
    Confined path fun ts => TableVault.mapAnswer g
      (Store.lookEffect ⟨e, .ofPath below⟩ ts table (look ts)) :=
  .onTable hpath hvalid g table fun name hname =>
    .look fun ts us hsame => hlook ts us name hsame hname

/-- A request at the end of a path is confined to it, and to every shorter one. -/
theorem Request.confined (hpath : path <+: below) (hvalid : ∀ s ∈ below, ValidName s)
    (request : Request) :
    Confined path fun ts => request.effect ⟨e, .ofPath below⟩ ts := by
  have hput : ∀ table key content encrypt, Confined path fun ts =>
      TableVault.mapAnswer (fun _ => .done) (Store.putEffect ⟨e, .ofPath below⟩ ts table key content encrypt) :=
    fun table key content encrypt => .onTable hpath hvalid _ table fun name hname =>
      .guarded fun record _ => .put hname key record
  cases request with
  | set table key content => exact hput table key content false
  | cryptSet table key content => exact hput table key content true
  | unset table key => exact .onTable hpath hvalid _ table fun name hname => .remove hname key
  | drop table => exact .onTable hpath hvalid _ table fun name hname => .dropSubtree hname
  | get table key shape =>
    refine .lookAt hpath hvalid _ table fun ts us name hsame hname => ?_
    show Store.contentAt _ ts name key shape = Store.contentAt _ us name key shape
    unfold Store.contentAt
    rw [Confined.find?_eq hsame hname]
  | rawGet table key =>
    refine .lookAt hpath hvalid _ table fun ts us name hsame hname => ?_
    exact congrArg Except.ok (Confined.find?_eq hsame hname key)
  | contains table key =>
    refine .lookAt hpath hvalid _ table fun ts us name hsame hname => ?_
    exact congrArg (fun found => Except.ok found.isSome) (Confined.find?_eq hsame hname key)
  | keys table =>
    refine .lookAt hpath hvalid _ table fun ts us name hsame hname => ?_
    exact congrArg (fun records => Except.ok records.keys) (Confined.recordsOf_eq hsame hname)
  | countKeys table =>
    refine .lookAt hpath hvalid _ table fun ts us name hsame hname => ?_
    exact congrArg (fun records => Except.ok records.size) (Confined.recordsOf_eq hsame hname)
  | tables =>
    refine .look fun ts us hsame => ?_
    show Except.ok (Answer.names (((ts.names.filterMap _).filter _))) = _
    rw [filterMap_relative_eq hpath (plain_of_valid hvalid) hsame]
    rfl
  | namespaces limitDepth =>
    refine .look fun ts us hsame => ?_
    have hrelative := filterMap_relative_eq hpath (plain_of_valid hvalid) hsame
    show Except.ok (Answer.names (Namespace.subNamespaces _ _ _)) = _
    rw [Namespace.subNamespaces, hrelative]
    rfl

/-- A way that stays in the namespace where it starts. Only buckets are elsewhere. -/
def Move.stays : Move → Bool
  | .bucket _ => false
  | _ => true

/-- The ways to the handle of a call. -/
def Call.moves : Call → List Move
  | .onStore moves _ => moves
  | .onView moves _ _ => moves

/-- A call through a handle that is reached without buckets. -/
def Call.stays (call : Call) : Bool := call.moves.all Move.stays

/-- One way that stays leads to the place or to one below it. -/
theorem prefix_of_move {next : List String} {m : Move} (hstays : m.stays = true)
    (h : m.path path = .ok next) : path <+: next := by
  cases m with
  | clone => exact Except.ok.inj h ▸ List.prefix_rfl
  | sub name =>
    obtain ⟨-, rfl⟩ := ok_of_validated h
    exact List.prefix_append path [name]
  | bucket name => cases hstays
  | table name =>
    obtain ⟨-, rfl⟩ := ok_of_validated h
    exact List.prefix_rfl

/-- Ways that stay lead to the place or to one below it. -/
theorem prefix_of_pathAfter {final : List String} {moves : List Move}
    (hstays : moves.all Move.stays = true) (h : pathAfter path moves = .ok final) :
    path <+: final := by
  induction moves generalizing path with
  | nil => exact Except.ok.inj h ▸ List.prefix_rfl
  | cons m rest ih =>
    rw [List.all_cons, Bool.and_eq_true] at hstays
    obtain ⟨next, hm, h⟩ := ok_of_bind h
    exact (prefix_of_move hstays.1 hm).trans (ih hstays.2 h)

/-- **Calls are confined.** A call through a handle at the end of a path, and on from there
    without buckets, sees and changes only what has the path in front of its name. -/
theorem Call.confined (hpath : ∀ s ∈ path, ValidName s) {call : Call} (hstays : call.stays = true) :
    Confined path fun ts => call.effect ⟨e, .ofPath path⟩ ts := by
  -- The handle that is reached is at the end of a longer path of valid segments.
  have hreached : ∀ {moves : List Move} {s : Store}, moves.all Move.stays = true →
      Store.follow ⟨e, .ofPath path⟩ moves = .ok s →
      ∃ below, path <+: below ∧ (∀ s ∈ below, ValidName s) ∧ s = ⟨e, .ofPath below⟩ := by
    intro moves s hmoves hs
    obtain ⟨below, hbelow, rfl⟩ := ofPath_of_follow path hs
    exact ⟨below, prefix_of_pathAfter hmoves hbelow, valid_of_pathAfter hpath hbelow, rfl⟩
  cases call with
  | onStore moves request =>
    refine .guarded fun s hs => ?_
    obtain ⟨below, hprefix, hvalid, rfl⟩ := hreached hstays hs
    exact Request.confined hprefix hvalid request
  | onView moves table request =>
    refine .guarded fun s hs => .guarded fun v hv => ?_
    obtain ⟨below, hprefix, hvalid, rfl⟩ := hreached hstays hs
    rw [table_eq] at hv
    obtain ⟨-, -, rfl⟩ := ok_of_map hv
    exact Request.confined hprefix hvalid (request.onTable table)

end Calls

/-! ### Clients -/

/-- The handle of a client is at the end of its path, whose segments are valid. -/
theorem handle_eq {e : Encoder} {path : List String} {handle : Store}
    (h : Store.follow ⟨e, .root⟩ (path.map .sub) = .ok handle) :
    handle = ⟨e, .ofPath path⟩ ∧ ∀ s ∈ path, ValidName s := by
  obtain ⟨final, hfinal, rfl⟩ := ofPath_of_follow [] h
  obtain ⟨rfl, hvalid⟩ := pathAfter_sub hfinal
  exact ⟨rfl, hvalid⟩

section Clients

variable {σ ι : Type} [Backend σ] [LawfulBackend σ] {ts : Tables} {e : Encoder}

/-- A call on an open storage has its effect. -/
theorem Call.outcome_eq (hm : ¬ mortal σ) (top : Store) (call : Call) {s : σ}
    (hs : view s = some ts) :
    (outcome (call.run top) s).1 = (call.effect top ts).1 ∧
      view (outcome (call.run top) s).2 = some (call.effect top ts).2 := by
  obtain ⟨s', hrun, hview⟩ := (Call.runs top ts call).outcome hm hs
  rw [outcome_of_answering hrun]
  exact ⟨rfl, hview⟩

/-- Calls of several clients on one storage, each through its own handle, one after another. -/
def serveClients (handle : ι → Store) (turns : List (ι × Call)) (s : σ) :
    List (ι × Except VaultError Answer) × σ :=
  trace (inTurn fun i call => outcome (call.run (handle i))) turns s

/-- Two storages are open and have the same tables within a path. -/
def InStep (path : List String) (s t : σ) : Prop :=
  ∃ ts us, view s = some ts ∧ view t = some us ∧ SameWithin path ts us

/-- Clients at paths of which none begins with another. Each call goes on from the handle of
    its client without buckets. -/
structure Apart (e : Encoder) (path : ι → List String) (turns : List (ι × Call)) : Prop where
  valid : ∀ i, ∀ s ∈ path i, ValidName s
  apart : ∀ i j, i ≠ j → ¬ path i <+: path j
  stays : ∀ turn ∈ turns, turn.2.stays = true

namespace Apart

variable {path : ι → List String} {turns : List (ι × Call)}

/-- A call of a client is answered alike where the tables are the same within its path. -/
theorem own (h : Apart e path turns) (hm : ¬ mortal σ) {i : ι} {call : Call}
    (hcall : (i, call) ∈ turns) {s t : σ} (hst : InStep (path i) s t) :
    (outcome (call.run ⟨e, .ofPath (path i)⟩) s).1 = (outcome (call.run ⟨e, .ofPath (path i)⟩) t).1 ∧
      InStep (path i) (outcome (call.run ⟨e, .ofPath (path i)⟩) s).2
        (outcome (call.run ⟨e, .ofPath (path i)⟩) t).2 := by
  obtain ⟨ts, us, hs, ht, hsame⟩ := hst
  obtain ⟨hanswer, hleft⟩ := Call.outcome_eq hm ⟨e, .ofPath (path i)⟩ call hs
  obtain ⟨hanswer', hleft'⟩ := Call.outcome_eq hm ⟨e, .ofPath (path i)⟩ call ht
  obtain ⟨heq, hsame'⟩ := (Call.confined (h.valid i) (h.stays _ hcall)).inside ts us hsame
  exact ⟨hanswer.trans (heq.trans hanswer'.symm), _, _, hleft, hleft', hsame'⟩

/-- A call of another client changes nothing within the path. -/
theorem other (h : Apart e path turns) (hm : ¬ mortal σ) {i j : ι} {call : Call}
    (hcall : (j, call) ∈ turns) (hij : j ≠ i) {s t : σ} (hst : InStep (path i) s t) :
    InStep (path i) (outcome (call.run ⟨e, .ofPath (path j)⟩) s).2 t := by
  obtain ⟨ts, us, hs, ht, hsame⟩ := hst
  obtain ⟨-, hleft⟩ := Call.outcome_eq hm ⟨e, .ofPath (path j)⟩ call hs
  refine ⟨_, us, hleft, ht, fun name hname => ?_⟩
  -- No name has two paths in front that are apart.
  have hout : ¬ Within (path j) name := fun hj => by
    rcases hj.comparable hname with hji | hij'
    · exact h.apart j i hij hji
    · exact h.apart i j hij.symm hij'
  rw [(Call.confined (h.valid j) (h.stays _ hcall)).outside ts name hout]
  exact hsame name hname

/-- What is within none of the paths stays. -/
theorem elsewhere (h : Apart e path turns) (hm : ¬ mortal σ) {s : σ} (hs : view s = some ts) :
    ∃ us, view (serveClients (fun i => ⟨e, .ofPath (path i)⟩) turns s).2 = some us ∧
      ∀ name, (∀ i, ¬ Within (path i) name) → us[name]? = ts[name]? := by
  refine trace_invariant (I := fun s : σ => ∃ us, view s = some us ∧
    ∀ name, (∀ i, ¬ Within (path i) name) → us[name]? = ts[name]?) ?_ ⟨ts, hs, fun _ _ => rfl⟩
  rintro ⟨i, call⟩ hcall s ⟨us, hview, hstay⟩
  obtain ⟨-, hleft⟩ := Call.outcome_eq hm ⟨e, .ofPath (path i)⟩ call hview
  refine ⟨_, hleft, fun name hname => ?_⟩
  rw [(Call.confined (h.valid i) (h.stays _ hcall)).outside us name (hname i)]
  exact hstay name hname

variable [DecidableEq ι]

/-- A client is answered as if it were alone, and finds the same tables within its path. -/
theorem alone (h : Apart e path turns) (hm : ¬ mortal σ) (i : ι) {s : σ} (hs : view s = some ts) :
    ofParty i (serveClients (fun i => ⟨e, .ofPath (path i)⟩) turns s).1 =
        (Store.serve ⟨e, .ofPath (path i)⟩ (ofParty i turns) s).1 ∧
      InStep (path i) (serveClients (fun i => ⟨e, .ofPath (path i)⟩) turns s).2
        (Store.serve ⟨e, .ofPath (path i)⟩ (ofParty i turns) s).2 :=
  trace_inTurn (fun _ hcall _ _ => h.own hm hcall) (fun _ _ hcall hij _ _ => h.other hm hcall hij)
    ⟨ts, ts, hs, hs, fun _ _ => rfl⟩

/-- The same calls in another order. -/
theorem reordered (h : Apart e path turns) {turns' : List (ι × Call)}
    (hsame : ∀ i, ofParty i turns' = ofParty i turns) : Apart e path turns' := by
  refine ⟨h.valid, h.apart, fun ⟨i, call⟩ hcall => h.stays ⟨i, call⟩ ?_⟩
  rwa [← mem_ofParty, ← hsame i, mem_ofParty]

end Apart

/-- **Clients in different namespaces do not interfere.** Clients have handles at paths of which
    none begins with another, and reach further handles from there without buckets. However
    their calls are interleaved, each client is answered as if it were alone on the storage, and
    the tables in the end do not depend on the order of their turns. -/
theorem clients_do_not_interfere [DecidableEq ι] (hm : ¬ mortal σ)
    {path : ι → List String} {handle : ι → Store}
    (hhandle : ∀ i, Store.follow ⟨e, .root⟩ ((path i).map .sub) = .ok (handle i))
    (hapart : ∀ i j, i ≠ j → ¬ path i <+: path j) {turns : List (ι × Call)}
    (hstays : ∀ turn ∈ turns, turn.2.stays = true) {s : σ} (hs : view s = some ts) :
    (∀ i, ofParty i (serveClients handle turns s).1 =
        ((handle i).serve (ofParty i turns) s).1) ∧
      ∃ us, view (serveClients handle turns s).2 = some us ∧
        ∀ turns', (∀ i, ofParty i turns' = ofParty i turns) →
          view (serveClients handle turns' s).2 = some us := by
  obtain rfl : handle = fun i => ⟨e, .ofPath (path i)⟩ := funext fun i => (handle_eq (hhandle i)).1
  have h : Apart e path turns := ⟨fun i => (handle_eq (hhandle i)).2, hapart, hstays⟩
  obtain ⟨us, hus, helse⟩ := h.elsewhere hm hs
  refine ⟨fun i => (h.alone hm i hs).1, us, hus, fun turns' hsame => ?_⟩
  have h' := h.reordered hsame
  obtain ⟨vs, hvs, helse'⟩ := h'.elsewhere hm hs
  rw [hvs]
  -- Under every name the tables are as one client alone leaves them, or as they were.
  refine congrArg some (Std.ExtTreeMap.ext_getElem? fun name => ?_)
  by_cases hname : ∃ i, Within (path i) name
  · obtain ⟨i, hi⟩ := hname
    obtain ⟨-, us', ws, hus', hws, hsame₁⟩ := h.alone hm i hs
    obtain ⟨-, vs', ws', hvs', hws', hsame₂⟩ := h'.alone hm i hs
    obtain rfl : us = us' := Option.some.inj (hus.symm.trans hus')
    obtain rfl : vs = vs' := Option.some.inj (hvs.symm.trans hvs')
    obtain rfl : ws = ws' := by
      rw [hsame i, hws] at hws'
      exact Option.some.inj hws'
    rw [hsame₁ name hi, hsame₂ name hi]
  · rw [not_exists] at hname
    rw [helse name hname, helse' name hname]

/-- The names in an answer that lists some. -/
def Answer.listed? : Except VaultError Answer → Option (List String)
  | .ok (.names listed) => some listed
  | _ => none

/-- A client and its neighbour, whose namespace has a longer name. The one drops what it can
    reach by the name of the other's table, and the other finds its own table still there, in
    whatever order the two take their turns. -/
theorem clients_do_not_interfere_siblings :
    let top : Store := ⟨.ofMaster ⟨.replicate Crypto.keySize 7, by decide⟩, .root⟩
    let handle : Bool → Store := fun i => ⟨top.encoder, .ofPath (if i then ["ab"] else ["a"])⟩
    let turns : List (Bool × Call) := [
      (false, .onStore [] (.cryptSet "t" "k" (.value (.unsigned 5)))),
      (true, .onView [.sub "c"] "t" (.set "k" (.value (.unsigned 6)))),
      (false, .onStore [] (.drop "t")), (false, .onStore [] (.drop "c")),
      (true, .onStore [.clone] (.namespaces true)), (true, .onStore [.sub "c"] (.keys "t"))]
    (ofParty true (serveClients handle turns Memory.empty).1).map Answer.listed? =
        [none, some ["c"], some ["k"]] ∧
      ∃ us, view (serveClients handle turns Memory.empty).2 = some us ∧
        view (serveClients handle (ofParty true turns |>.map (true, ·)
          |>.append (ofParty false turns |>.map (false, ·))) Memory.empty).2 = some us := by
  intro top handle turns
  have hhandle : ∀ i, Store.follow top ((if i then ["ab"] else ["a"]).map Move.sub) =
      .ok (handle i) := by rintro (_ | _) <;> rfl
  have hs : view Memory.empty = some ∅ := rfl
  obtain ⟨hanswers, us, hus, horder⟩ :=
    clients_do_not_interfere (fun h => h) hhandle (by decide) (by decide : ∀ turn ∈ turns, _) hs
  exact ⟨(congrArg (List.map Answer.listed?) (hanswers true)).trans (by decide +kernel), us, hus,
    horder _ (by rintro (_ | _) <;> rfl)⟩

end Clients

end TableVault
