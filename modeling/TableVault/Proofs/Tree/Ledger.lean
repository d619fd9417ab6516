import TableVault.Proofs.Padlock.Unlock
import TableVault.Proofs.Tree.Transparency

namespace TableVault

open Storage Record Padlock

/-!
# Ledgers of writes

What calls have written, told without any storage: which tables there are, and what each of
their keys was last written with.

* `Ledger` — the tables that have been written to and not been dropped since, with the entries
  at their keys;
* `Ledger.after` — the ledger of some calls, one after another;
* `Mark` — whether a record is encrypted, and its length; an entry tells both
  (`mark_of_encode`);
* `Ledger.Spells` — a ledger tells the tables of a tree and the marks of their records, which
  every call keeps (`Call.spells`);
* `Reached` — storage that calls have led to, through any number of openings;
* `Reached.spells` — such storage is what the ledger of the calls says.
-/

/-! ### Entries -/

/-- What a key is written with: a value, and whether it is encrypted. -/
structure Entry where
  value : Cbor.Value
  encrypted : Bool

/-- The entries at the keys of a table. -/
abbrev Entries := String → Option Entry

/-- The tables that there are, with what their keys were last written with. -/
abbrev Ledger := Spot → Option Entries

namespace Ledger

variable (l : Ledger)

/-- What a key of a table was last written with, if it is there. -/
def entryAt (spot : Spot) (key : String) : Option Entry :=
  (l spot).bind (· key)

/-- A key of a table is written, and the table is there from now on. -/
def put (spot : Spot) (key : String) (entry : Entry) : Ledger := fun other =>
  if other = spot then some fun k => if k = key then some entry else l.entryAt spot k else l other

/-- A key of a table is removed. The table stays. -/
def remove (spot : Spot) (key : String) : Ledger := fun other =>
  if other = spot then (l spot).map fun entries k => if k = key then none else entries k else l other

/-- A table is dropped with everything beneath it. -/
def drop (base : Spot) : Ledger := fun other =>
  if base.segments <+: other.segments then none else l other

/-- Content is stored at a key of a table. What cannot be written leaves nothing. -/
def store (spot : Spot) (key : String) (encrypted : Bool) : Content → Ledger
  | .value v => l.put spot key ⟨v, encrypted⟩
  | .unwritable _ => l

/-- A change that is made only if a check succeeds. -/
def changed {α : Type} (check : Except VaultError α) (change : α → Ledger) : Ledger :=
  match check with
  | .ok a => change a
  | .error _ => l

end Ledger

/-! ### Calls -/

/-- What a request at the end of a path leaves in a ledger. -/
def Request.onLedger (path : List String) (l : Ledger) : Request → Ledger
  | .set table key content =>
    l.changed (validateName table) fun _ => l.store (path, table) key false content
  | .cryptSet table key content =>
    l.changed (validateName table) fun _ => l.store (path, table) key true content
  | .unset table key => l.changed (validateName table) fun _ => l.remove (path, table) key
  | .drop table => l.changed (validateName table) fun _ => l.drop (path, table)
  | _ => l

/-- What a call leaves in a ledger. -/
def Call.onLedger (l : Ledger) : Call → Ledger
  | .onStore moves request => l.changed (pathAfter [] moves) fun path => request.onLedger path l
  | .onView moves table request =>
    l.changed (pathAfter [] moves) fun path => (request.onTable table).onLedger path l

/-- The ledger of some calls, one after another. At first there is no table. -/
def Ledger.after (calls : List Call) : Ledger :=
  calls.foldl Call.onLedger fun _ => none

/-! ### Marks -/

/-- What is seen of a record without reading it. -/
structure Mark where
  encrypted : Bool
  size : Nat
  deriving DecidableEq

/-- The mark of a record. -/
def Record.mark (record : Bytes) : Mark := ⟨isEncrypted record, record.length⟩

/-- The mark that an entry leaves: one byte for the flag, and the bytes of the value. -/
def Entry.mark (entry : Entry) : Mark := ⟨entry.encrypted, 1 + entry.value.encode.length⟩

/-- Whatever the key of the vault is, a value leaves its mark. -/
theorem mark_of_encode {e : Encoder} {v : Cbor.Value} {encrypt : Bool} {record : Bytes}
    (h : e.encode (.value v) encrypt = .ok record) : mark record = Entry.mark ⟨v, encrypt⟩ := by
  obtain rfl := Except.ok.inj h
  rw [Entry.mark, Nat.add_comm]
  cases encrypt with
  | false => rfl
  | true => exact congrArg (fun n => Mark.mk true (n + 1)) (Crypto.ValueCipher.length_encrypt _ _)

/-- The marks of the records of a table. -/
def Records.marks (records : Records) (key : String) : Option Mark :=
  records[key]?.map mark

/-- The marks that the entries of a table leave. -/
def Entries.marks (entries : Entries) (key : String) : Option Mark :=
  (entries key).map Entry.mark

/-! ### Ledgers and trees -/

namespace Ledger

/-- A ledger tells the tables of a tree, all of them at valid spots, and the marks of their
    records. -/
structure Spells (l : Ledger) (t : Tree) : Prop where
  valid : ∀ spot ∈ t, spot.Valid
  marks : ∀ spot, t[spot]?.map Records.marks = (l spot).map Entries.marks

variable {l : Ledger} {t : Tree} {spot : Spot}

/-- The tables of the tree are those of the ledger. -/
theorem Spells.mem_iff (h : l.Spells t) : spot ∈ t ↔ (l spot).isSome = true := by
  rw [← Std.ExtTreeMap.isSome_getElem?_iff_mem, ← Option.isSome_map (f := Records.marks), h.marks,
    Option.isSome_map]

/-- What the ledger does not have is no table. -/
theorem Spells.absent (h : l.Spells t) (hl : l spot = none) : t[spot]? = none := by
  have hspot := h.marks spot
  rwa [hl, Option.map_none, Option.map_eq_none_iff] at hspot

/-- What the ledger has is a table whose records have the marks of the entries. -/
theorem Spells.found (h : l.Spells t) {entries : Entries} (hl : l spot = some entries) :
    ∃ records, t[spot]? = some records ∧ Records.marks records = entries.marks := by
  have hspot := h.marks spot
  rwa [hl, Option.map_some, Option.map_eq_some_iff] at hspot

/-- At a key of a table is the mark of its entry. -/
theorem Spells.marks_recordsAt (h : l.Spells t) (spot : Spot) (key : String) :
    Records.marks (t.recordsAt spot) key = (l.entryAt spot key).map Entry.mark := by
  rw [Tree.recordsAt_eq, entryAt]
  cases hl : l spot with
  | none =>
    rw [h.absent hl, Option.getD_none, Records.marks, Std.ExtTreeMap.getElem?_empty]
    rfl
  | some entries =>
    obtain ⟨records, hrecords, hmarks⟩ := h.found hl
    rw [hrecords, Option.getD_some, hmarks]
    rfl

/-- Putting a record with the mark of an entry is writing the entry. -/
theorem Spells.put (h : l.Spells t) (hspot : spot.Valid) (key : String) {record : Bytes}
    {entry : Entry} (hmark : mark record = entry.mark) :
    (l.put spot key entry).Spells (t.put spot key record) where
  valid other hother := by
    rcases Tree.mem_put.mp hother with rfl | hother
    · exact hspot
    · exact h.valid other hother
  marks other := by
    rw [Tree.getElem?_put, Ledger.put]
    split
    · refine congrArg some (funext fun k => ?_)
      rw [Records.marks, Std.ExtTreeMap.getElem?_insert, Entries.marks]
      simp only [Std.LawfulEqCmp.compare_eq_iff_eq, eq_comm (a := key)]
      split
      · exact congrArg some hmark
      · exact h.marks_recordsAt spot k
    · exact h.marks other

/-- Removing a record is removing the entry. -/
theorem Spells.remove (h : l.Spells t) (spot : Spot) (key : String) :
    (l.remove spot key).Spells (t.remove spot key) where
  valid other hother := h.valid other (Tree.mem_remove.mp hother)
  marks other := by
    rw [Tree.getElem?_remove, Ledger.remove]
    split
    · cases hl : l spot with
      | none =>
        rw [h.absent hl]
        rfl
      | some entries =>
        obtain ⟨records, hrecords, hmarks⟩ := h.found hl
        rw [hrecords]
        refine congrArg some (funext fun k => ?_)
        rw [Records.marks, Std.ExtTreeMap.getElem?_erase, Entries.marks]
        simp only [Std.LawfulEqCmp.compare_eq_iff_eq, eq_comm (a := key)]
        split
        · rfl
        · exact congrFun hmarks k
    · exact h.marks other

/-- Dropping a table is dropping it. -/
theorem Spells.drop (h : l.Spells t) (base : Spot) : (l.drop base).Spells (t.drop base) where
  valid other hother := h.valid other (Tree.mem_of_mem_drop hother)
  marks other := by
    rw [Tree.getElem?_drop, Ledger.drop]
    split
    · rfl
    · exact h.marks other

/-- Storing content is storing it. -/
theorem Spells.store (h : l.Spells t) (hspot : spot.Valid) (e : Encoder) (key : String)
    (encrypt : Bool) (content : Content) :
    (l.store spot key encrypt content).Spells (t.store e spot key content encrypt).2 := by
  cases content with
  | unwritable reason => exact h
  | value v => exact h.put hspot key (mark_of_encode (e := e) rfl)

/-- What goes on after the same check stays alike. -/
theorem Spells.changed (h : l.Spells t) {α β : Type} {check : Except VaultError α}
    {change : α → Ledger} {f : α → Except VaultError β × Tree}
    (hf : ∀ a, check = .ok a → (change a).Spells (f a).2) :
    (l.changed check change).Spells (guarded t check f).2 := by
  cases check with
  | ok a => exact hf a rfl
  | error fault => exact h

/-- The empty ledger tells the empty tree. -/
theorem spells_empty : Spells (fun _ => none) ∅ where
  valid _ hspot := absurd hspot Std.ExtTreeMap.not_mem_empty
  marks spot := by
    rw [Std.ExtTreeMap.getElem?_empty]
    rfl

end Ledger

section Calls

variable {l : Ledger} {t : Tree} {path : List String}

/-- A request does to a ledger what it does to the tree. -/
theorem Request.spells (h : l.Spells t) (hpath : ∀ s ∈ path, ValidName s) (e : Encoder)
    (request : Request) : (request.onLedger path l).Spells (request.onTree e path t).2 := by
  have hspot : ∀ {table : String} {u : Unit}, validateName table = .ok u →
      Spot.Valid (path, table) :=
    fun htable => Spot.valid_iff.mpr ⟨hpath, validateName_eq_ok_iff.mp htable⟩
  have hlook : ∀ (table : String) (answer : Except VaultError Answer),
      l.Spells (guarded t (validateName table) fun _ => (answer, t)).2 := by
    intro table answer
    cases validateName table <;> exact h
  cases request with
  | set table key content => exact h.changed fun _ htable => h.store (hspot htable) e key false content
  | cryptSet table key content =>
    exact h.changed fun _ htable => h.store (hspot htable) e key true content
  | unset table key => exact h.changed fun _ _ => h.remove (path, table) key
  | drop table => exact h.changed fun _ _ => h.drop (path, table)
  | get table key shape => exact hlook table _
  | rawGet table key => exact hlook table _
  | contains table key => exact hlook table _
  | keys table => exact hlook table _
  | countKeys table => exact hlook table _
  | tables => exact h
  | namespaces limitDepth => exact h

/-- **Calls keep the ledger.** A call does to a ledger what it does to the tree, with any
    encoder. -/
theorem Call.spells (h : l.Spells t) (e : Encoder) (call : Call) :
    (call.onLedger l).Spells (call.onTree e t).2 := by
  have hstore : ∀ moves (request : Request), Ledger.Spells
      (l.changed (pathAfter [] moves) fun path => request.onLedger path l)
      (Call.onTree e t (.onStore moves request)).2 :=
    fun moves request => h.changed fun path hpath =>
      request.spells h (valid_of_pathAfter (by simp) hpath) e
  cases call with
  | onStore moves request => exact hstore moves request
  | onView moves table request =>
    rw [Call.onTree_onView]
    exact hstore moves (request.onTable table)

end Calls

/-! ### Storage -/

variable {σ : Type} [Backend σ] [LawfulBackend σ] {s : σ} {ts : Tables} {calls : List Call}

/-- Storage that some calls have led to. It was empty at first. Between the calls it may have
    been closed and opened again, with whatever padlocks have opened it. -/
inductive Reached : List Call → σ → Prop
  /-- The storage is empty. -/
  | empty {s : σ} (hs : view s = some ∅) : Reached [] s
  /-- One more call has been made, with the encoder of the store that it was made on. -/
  | call {calls : List Call} {s : σ} (h : Reached calls s) (e : Encoder) (call : Call) :
    Reached (calls ++ [call]) (outcome (call.run ⟨e, .root⟩) s).2
  /-- The same tables have been opened again. -/
  | opened {calls : List Call} {s again s' : σ} {fresh : Fresh} {padlock : Bytes} {store : Store}
    (h : Reached calls s) (hsame : view again = view s)
    (hopen : Store.withBackend fresh padlock again = .ok store s') : Reached calls s'

/-- Tables that differ in the system table spell the same tree. -/
theorem treeOf_put_systemTable (ts : Tables) (key : String) (record : Bytes) :
    treeOf (ts.put systemTable key record) = treeOf ts := by
  refine Std.ExtTreeMap.ext_getElem? fun spot => ?_
  rw [getElem?_treeOf, getElem?_treeOf, Tables.getElem?_put]
  split
  · next h => rw [if_neg h.2]
  · rfl

/-- Storage that has been unlocked has the tables of unlocking. -/
theorem Store.view_of_withBackend (hm : ¬ mortal σ) {s' : σ} {fresh : Fresh} {padlock : Bytes}
    {store : Store} (hs : view s = some ts)
    (h : Store.withBackend fresh padlock s = .ok store s') :
    view s' = some (unlockEffect fresh padlock ts).2 := by
  obtain ⟨after, hrun, hview⟩ := (unlock_runs (σ := σ) fresh padlock ts).outcome hm hs
  unfold Store.withBackend at h
  rw [hrun] at h
  cases hanswer : (unlockEffect fresh padlock ts).1 with
  | ok master =>
    rw [hanswer] at h
    obtain ⟨-, rfl⟩ := EStateM.Result.ok.inj h
    exact hview
  | error fault =>
    -- Storage that cannot be unlocked is closed, and gives no store.
    rw [hanswer] at h
    simp only [answering] at h
    split at h <;> cases h

/-- **The ledger of a run.** Storage that calls have led to is open, and the ledger of the calls
    tells its tables and the marks of its records. -/
theorem Reached.spells (hm : ¬ mortal σ) (h : Reached calls s) :
    ∃ ts, view s = some ts ∧ (Ledger.after calls).Spells (treeOf ts) := by
  -- No marker of a reset is ever left, so that opening removes nothing.
  suffices ∃ ts, view s = some ts ∧ ts.find? systemTable resetKey = none ∧
      (Ledger.after calls).Spells (treeOf ts) by
    obtain ⟨ts, hs, -, hspells⟩ := this
    exact ⟨ts, hs, hspells⟩
  induction h with
  | empty hs =>
    refine ⟨∅, hs, Tables.find?_empty _ _, ?_⟩
    rw [treeOf_empty]
    exact Ledger.spells_empty
  | call h e call ih =>
    obtain ⟨ts, hs, hmarker, hspells⟩ := ih
    obtain ⟨-, us, hview, htree, hsystem⟩ := Call.refines hm e call hs
    refine ⟨us, hview, ?_, ?_⟩
    · rwa [Tables.find?_eq, hsystem, ← Tables.find?_eq]
    · rw [htree, Ledger.after, List.foldl_concat]
      exact call.spells hspells e
  | opened h hsame hopen ih =>
    obtain ⟨ts, hs, hmarker, hspells⟩ := ih
    refine ⟨_, Store.view_of_withBackend hm (hsame.trans hs) hopen, ?_⟩
    rw [unlockEffect_of_unmarked hmarker]
    rcases openEffect_tables _ _ ts with hsame | hbound
    · rw [hsame]
      exact ⟨hmarker, hspells⟩
    · rw [hbound, locked, treeOf_put_systemTable, Tables.find?_put, if_neg (by decide)]
      exact ⟨hmarker, hspells⟩

end TableVault
