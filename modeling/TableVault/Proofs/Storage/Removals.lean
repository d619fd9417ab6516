import TableVault.Proofs.Storage.Equivalence

namespace TableVault.Storage

/-!
# Removing several records

A backend removes several records of a table in one write. That comes to the same as removing one
after another, in whatever order, and counts those that were there.

* `Records.exists_counted`, `Tables.removeKeys_congr`, `Tables.recordsOf_removeKeys` and
  `Tables.names_removeKeys` — what is counted and what is left, which depends on which keys there
  are and not on their order;
* `Follows` — a system that goes through states that stand for tables;
* `Follows.trace_unset` — single removals one after another;
* `Removes` and `Follows.removes` — what there is to say of a bulk removal, by the operations alone,
  and that it holds of every such system;
* `Memory.follows` and `Disk.follows` — the two kinds of storage are such systems;
* `bulk_removal_agrees` — so it holds of both as long as they are open.
-/

/-! ### Removals from tables -/

namespace Records

/-- Records are removed by which keys there are. -/
theorem without_congr {keys order : List String} (h : ∀ key, key ∈ order ↔ key ∈ keys)
    (records : Records) : without records order = without records keys := by
  apply Std.ExtTreeMap.ext_getElem?
  intro key
  simp only [getElem?_without, h]

/-- Records are counted by which keys there are. -/
theorem countAmong_congr {keys order : List String} (h : ∀ key, key ∈ order ↔ key ∈ keys)
    (records : Records) : countAmong records order = countAmong records keys := by
  unfold countAmong
  refine congrArg List.length (List.filter_congr fun key _ => ?_)
  simp [h]

/-- What is counted are the different keys that there is a record at. -/
theorem exists_counted (records : Records) (keys : List String) :
    ∃ found : List String, found.Nodup ∧ found.length = countAmong records keys ∧
      ∀ key, key ∈ found ↔ key ∈ keys ∧ ∃ record, records[key]? = some record := by
  refine ⟨records.keys.filter keys.contains, Std.ExtTreeMap.nodup_keys.filter _, rfl, fun key => ?_⟩
  rw [List.mem_filter, Std.ExtTreeMap.mem_keys, ← Std.ExtTreeMap.isSome_getElem?_iff_mem,
    Option.isSome_iff_exists, List.contains_iff_mem, and_comm]

end Records

namespace Tables

variable (ts : Tables)

/-- Neither the order of keys nor how often they come matters for their removal. -/
theorem removeKeys_congr (table : String) {keys order : List String}
    (h : ∀ key, key ∈ order ↔ key ∈ keys) : ts.removeKeys table order = ts.removeKeys table keys := by
  unfold removeKeys
  simp only [Records.without_congr h]

/-- Records are removed from their table and from no other. -/
theorem recordsOf_removeKeys (table : String) (keys : List String) (name : String) :
    (ts.removeKeys table keys).recordsOf name =
      if name = table then Records.without (ts.recordsOf table) keys else ts.recordsOf name := by
  rw [recordsOf_eq, recordsOf_eq, recordsOf_eq, getElem?_removeKeys]
  by_cases hname : name = table
  · rw [if_pos hname, if_pos hname]
    cases ts[table]? with
    | none => exact Std.ExtTreeMap.ext_getElem? fun key => by simp [Records.getElem?_without]
    | some records => rfl
  · rw [if_neg hname, if_neg hname]

/-- Removing records takes no table from the list. -/
theorem names_removeKeys (table : String) (keys : List String) :
    (ts.removeKeys table keys).names = ts.names := by
  refine List.Pairwise.eq_of_mem_iff (pairwise_names _) ts.pairwise_names fun name => ?_
  rw [mem_names, mem_names, removeKeys, Std.ExtTreeMap.mem_modify]

end Tables

/-! ### Systems that go through tables -/

section Systems

variable {τ : Type} {step : Operation → τ → Except StorageError Reply × τ} {state : Tables → τ}

/-- A system goes through states that stand for tables: in each of these every operation but
    closing is answered, and leaves such a state, as the tables tell. -/
def Follows (step : Operation → τ → Except StorageError Reply × τ) (state : Tables → τ) : Prop :=
  ∀ op ts, op ≠ .close → step op (state ts) = (.ok (op.change ts).1, state (op.change ts).2)

/-- Removing records one after another succeeds every time, and leaves what removing all of them
    leaves. -/
theorem Follows.trace_unset (h : Follows step state) (ts : Tables) (table : String)
    (order : List String) :
    trace step (order.map (.unset table)) (state ts) =
      (order.map fun _ => .ok .done, state (ts.removeKeys table order)) := by
  induction order generalizing ts with
  | nil => rw [Tables.removeKeys_nil]; rfl
  | cons key rest ih =>
    have hfirst : step (.unset table key) (state ts) = (.ok .done, state (ts.remove table key)) :=
      h (.unset table key) ts (by simp)
    simp only [List.map_cons, trace, hfirst, ih, Tables.removeKeys_cons]

/-- From `s` a system removes the records at some keys of a table in one write, answers with `n`,
    and is left at `s'`. -/
structure Removes (step : Operation → τ → Except StorageError Reply × τ) (table : String)
    (keys : List String) (s : τ) (n : ℕ) (s' : τ) : Prop where
  /-- The write does the same for the keys in any order. -/
  bulk : ∀ order : List String, (∀ key, key ∈ order ↔ key ∈ keys) →
    step (.unsetMany table order) s = (.ok (.count n), s')
  /-- Single removals, in any order, all succeed and leave the same state. -/
  singles : ∀ order : List String, (∀ key, key ∈ order ↔ key ∈ keys) →
    trace step (order.map (.unset table)) s = (order.map fun _ => .ok .done, s')
  /-- The answer is the number of different keys that there was a record at. -/
  counted : ∃ found : List String, found.Nodup ∧ found.length = n ∧
    ∀ key, key ∈ found ↔ key ∈ keys ∧ ∃ record, (step (.get table key) s).1 = .ok (.record (some record))
  /-- The table has as many keys less as the answer says. -/
  fewer : ∃ before after, (step (.countKeys table) s).1 = .ok (.count before) ∧
    (step (.countKeys table) s').1 = .ok (.count after) ∧ before = after + n
  /-- No table goes from the list. -/
  tables : (step .tables s').1 = (step .tables s).1
  /-- Other tables have the same keys and records. -/
  others : ∀ other, other ≠ table → (step (.keys other) s').1 = (step (.keys other) s).1 ∧
    (step (.countKeys other) s').1 = (step (.countKeys other) s).1 ∧
    ∀ key, (step (.get other key) s').1 = (step (.get other key) s).1

/-- Bulk removal agrees with single removals wherever states stand for tables. -/
theorem Follows.removes (h : Follows step state) (ts : Tables) (table : String)
    (keys : List String) :
    Removes step table keys (state ts) (ts.countPresent table keys)
      (state (ts.removeKeys table keys)) := by
  have hanswer : ∀ (op : Operation) (us : Tables), op ≠ .close →
      (step op (state us)).1 = .ok (op.change us).1 := fun op us hop => by rw [h op us hop]
  -- An operation answers alike afterwards if what it looks at is as before.
  have hunchanged : ∀ op : Operation, op ≠ .close →
      (op.change (ts.removeKeys table keys)).1 = (op.change ts).1 →
      (step op (state (ts.removeKeys table keys))).1 = (step op (state ts)).1 := by
    intro op hop hsame
    rw [hanswer op _ hop, hanswer op _ hop, hsame]
  have hrecords := ts.recordsOf_removeKeys table keys
  refine ⟨fun order horder => ?_, fun order horder => ?_, ?_, ?_, ?_, fun other hother => ?_⟩
  · rw [h _ _ (by simp), Tables.countPresent, ← Records.countAmong_congr horder,
      ← ts.removeKeys_congr table horder]
    rfl
  · rw [h.trace_unset, ts.removeKeys_congr table horder]
  · obtain ⟨found, hnodup, hlength, hmem⟩ := Records.exists_counted (ts.recordsOf table) keys
    refine ⟨found, hnodup, hlength, fun key => ?_⟩
    rw [hmem, hanswer _ _ (by simp)]
    simp [Operation.change, Tables.find?]
  · refine ⟨_, _, hanswer _ _ (by simp), hanswer _ _ (by simp), ?_⟩
    have hsize := Records.countAmong_add_size (ts.recordsOf table) keys
    rw [hrecords, if_pos rfl, Tables.countPresent]
    omega
  · exact hunchanged .tables (by simp) (congrArg Reply.names (ts.names_removeKeys table keys))
  · have hsame : (ts.removeKeys table keys).recordsOf other = ts.recordsOf other := by
      rw [hrecords, if_neg hother]
    refine ⟨hunchanged (.keys other) (by simp) ?_, hunchanged (.countKeys other) (by simp) ?_,
      fun key => hunchanged (.get other key) (by simp) ?_⟩
    · simp only [Operation.change, hsame]
    · simp only [Operation.change, hsame]
    · simp only [Operation.change, Tables.find?, hsame]

end Systems

/-! ### The two kinds of storage -/

/-- Storage in memory stands for its tables as long as it is open. -/
theorem Memory.follows : Follows (fun op => outcome op.run) fun ts => (⟨some ts⟩ : Memory) := by
  intro op ts hop
  obtain ⟨m, hrun, hview⟩ := (Operation.run_runs (σ := Memory) ts op hop).outcome (fun h => h)
    (show view (⟨some ts⟩ : Memory) = some ts from rfl)
  obtain rfl : m = ⟨some (op.change ts).2⟩ := congrArg Memory.mk hview
  exact outcome_of_answering hrun

/-- A disk stands for the tables of a database that a handle holds. -/
theorem Disk.follows (d : Disk) {h : Handle} (hplace : h.place ≠ []) :
    Follows (fun op => outcome (through h op.run)) fun ts =>
      d.put h.place (.database ts (some h.number)) := by
  intro op ts hop
  have hconnection : (d.put h.place (.database ts (some h.number))).connection h =
      ⟨h.path, ts, true⟩ := connection_of_holdsAt ⟨hplace, FileTree.node?_put _ hplace _⟩
  obtain ⟨after, hrun, hview⟩ := (Operation.run_runs (σ := Durable) ts op hop).outcome (fun h => h)
    (show view (⟨h.path, ts, true⟩ : Durable) = some ts from rfl)
  obtain ⟨hopen, htables⟩ := Durable.view_eq_some hview
  show outcome (through h op.run) _ = _
  rw [outcome_through, hconnection, outcome_of_answering hrun, settle, if_pos rfl, hopen, htables,
    if_pos rfl]
  simp only [put, FileTree.put_put]

/-- **Bulk removal agrees with single removals.** On open storage of either kind, removing the
    records at any keys of a table in one write leaves the state that removing them one after
    another leaves, in whatever order the keys are taken and however often they come. The answer is
    the number of different keys that there was a record at, and so many keys less the table has
    afterwards. Other tables and the list of tables stay as they are. -/
theorem bulk_removal_agrees (table : String) (keys : List String) :
    (∀ m : Memory, (view m).isSome →
      ∃ n m', Removes (fun op => outcome op.run) table keys m n m') ∧
    ∀ (d : Disk) (h : Handle), (view (d.connection h)).isSome →
      ∃ n d', Removes (fun op => outcome (Disk.through h op.run)) table keys d n d' := by
  constructor
  · intro m hopen
    obtain ⟨ts, hts⟩ := Option.isSome_iff_exists.mp hopen
    obtain rfl : m = ⟨some ts⟩ := congrArg Memory.mk hts
    exact ⟨_, _, Memory.follows.removes ts table keys⟩
  · intro d h hopen
    obtain ⟨ts, hts⟩ := Option.isSome_iff_exists.mp hopen
    obtain ⟨hplace, hnode⟩ := Disk.holdsAt_of_view hts
    have hremoves := (d.follows hplace).removes ts table keys
    have hdisk : d.put h.place (.database ts (some h.number)) = d := by
      rw [Disk.put, FileTree.put_of_node? hplace hnode]
    rw [hdisk] at hremoves
    exact ⟨_, _, hremoves⟩

/-- Of four keys one comes twice and one has no record, so two records are removed, from either
    kind of storage. -/
theorem bulk_removal_agrees_twice :
    let ts := (((∅ : Tables).put "t" "a" [1]).put "t" "b" [2]).put "t" "c" [3]
    let m : Memory := ⟨some ts⟩
    let d := (Disk.empty.hold "vault" ["vault"] ts).2
    let h : Handle := ⟨"vault", ["vault"], 0⟩
    let doomed := ["b", "z", "a", "b"]
    (view m).isSome ∧ (view (d.connection h)).isSome ∧
      (∃ m', Removes (fun op => outcome op.run) "t" doomed m 2 m') ∧
      ∃ d', Removes (fun op => outcome (Disk.through h op.run)) "t" doomed d 2 d' := by
  intro ts m d h doomed
  have hconnection : d.connection h = ⟨"vault", ts, true⟩ :=
    Disk.connection_of_holdsAt (Disk.hold_holdsAt Disk.empty "vault" (List.cons_ne_nil _ _) ts)
  have hopen : (view (d.connection h)).isSome := by rw [hconnection]; rfl
  obtain ⟨hmemory, hdisk⟩ := bulk_removal_agrees "t" doomed
  obtain ⟨n, m', hm⟩ := hmemory m rfl
  obtain ⟨k, d', hd⟩ := hdisk d h hopen
  -- What the bulk removal answers is computed.
  have hn : n = 2 := by
    have hanswer : (outcome (Operation.unsetMany "t" doomed).run m).1 = .ok (.count 2) := by rfl
    rw [hm.bulk doomed fun _ => Iff.rfl] at hanswer
    exact Reply.count.inj (Except.ok.inj hanswer)
  have hk : k = 2 := by
    have hanswer : (outcome (Disk.through h (Operation.unsetMany "t" doomed).run) d).1 =
        .ok (.count 2) := by
      rw [Disk.outcome_through, hconnection]
      rfl
    rw [hd.bulk doomed fun _ => Iff.rfl] at hanswer
    exact Reply.count.inj (Except.ok.inj hanswer)
  subst hn hk
  exact ⟨rfl, hopen, ⟨m', hm⟩, ⟨d', hd⟩⟩

end TableVault.Storage
