import TableVault.Proofs.Tree.Plain

namespace TableVault

open Storage Record

/-!
# Encryption is transparent

What is encrypted is seen in records as they are stored, and nowhere else.

* `lastWrite` and `Flagged` — how a key was last written, and that the flag of its record
  says so, which every call keeps (`Call.flagged`);
* `Alike` and `FlagsTell` — answers that differ at most in the bytes of stored records, and
  stored records whose flags tell how they were written;
* `encryption_is_transparent` — runs that differ in their key and in what they encrypt are
  answered alike, and the flags of stored records tell how they were written.
-/

/-! ### How keys were written -/

/-- Whether storing content at a key of a table writes a value at a given one, and if so, whether
    it encrypts the value. Nothing is written if there is no value. -/
def Content.writesAt (place : Spot × String) (encrypt : Bool) :
    Content → Spot → String → Option Bool
  | .value _, spot, key => if place = (spot, key) then some encrypt else none
  | .unwritable _, _, _ => none

/-- Whether a request at the end of a path writes a value at a key of a table, and if so, whether
    it encrypts the value. -/
def Request.writesAt (path : List String) : Request → Spot → String → Option Bool
  | .set table key content => content.writesAt ((path, table), key) false
  | .cryptSet table key content => content.writesAt ((path, table), key) true
  | _ => fun _ _ => none

/-- Whether a call writes a value at a key of a table, and if so, whether it encrypts the value. -/
def Call.writesAt : Call → Spot → String → Option Bool
  | .onStore moves request, spot, key => do
    request.writesAt (← (pathAfter [] moves).toOption) spot key
  | .onView moves table request, spot, key => do
    (request.onTable table).writesAt (← (pathAfter [] moves).toOption) spot key

/-- Whether the last of some calls that wrote a value at a key of a table encrypted it, if any
    did. -/
def lastWrite (spot : Spot) (key : String) (calls : List Call) : Option Bool :=
  (calls.filterMap fun call => call.writesAt spot key).getLast?

/-- The flags of stored records in the answers to some calls tell how their keys were last
    written. -/
def FlagsTell (calls : List Call) (answers : List (Except VaultError Answer)) : Prop :=
  ∀ n moves path table key record, calls[n]? = some (.onStore moves (.rawGet table key)) →
    pathAfter [] moves = .ok path → answers[n]? = some (.ok (.record (some record))) →
    (record.head? = some 1 ↔ lastWrite (path, table) key (calls.take n) = some true)

/-- All records of a tree are flagged as their keys were last written. -/
def Flagged (calls : List Call) (t : Tree) : Prop :=
  ∀ spot key record, spot.Valid → (t.recordsAt spot)[key]? = some record →
    lastWrite spot key calls = some (isEncrypted record)

/-- What is left is flagged as the writes say that have been made, and what has not been written
    is what was there. -/
def FlaggedBy (writes : Spot → String → Option Bool) (t u : Tree) : Prop :=
  ∀ spot key record, spot.Valid → (u.recordsAt spot)[key]? = some record →
    writes spot key = some (isEncrypted record) ∨
      writes spot key = none ∧ (t.recordsAt spot)[key]? = some record

section Flags

variable {e : Encoder} {path : List String} {t u : Tree}

/-- The last write is that of the last call, or one before it. -/
theorem lastWrite_concat (spot : Spot) (key : String) (calls : List Call) (call : Call) :
    lastWrite spot key (calls ++ [call]) =
      (call.writesAt spot key).or (lastWrite spot key calls) := by
  rw [lastWrite, List.filterMap_append, List.getLast?_append, lastWrite]
  cases h : call.writesAt spot key <;> simp [h]

/-- Flags that tell what was written still do so after another call. -/
theorem Flagged.concat {calls : List Call} (h : Flagged calls t) {call : Call}
    (hcall : FlaggedBy call.writesAt t u) : Flagged (calls ++ [call]) u := by
  intro spot key record hspot hrecord
  rw [lastWrite_concat]
  rcases hcall spot key record hspot hrecord with hwrites | ⟨hwrites, hbefore⟩
  · rw [hwrites, Option.some_or]
  · rw [hwrites, Option.none_or]
    exact h spot key record hspot hbefore

namespace FlaggedBy

variable {writes : Spot → String → Option Bool}

/-- What only takes records away writes nothing. -/
theorem of_less (hwrites : ∀ spot key, spot.Valid → writes spot key = none)
    (hless : ∀ (spot : Spot) (key : String) (record : Bytes),
      (u.recordsAt spot)[key]? = some record → (t.recordsAt spot)[key]? = some record) :
    FlaggedBy writes t u :=
  fun spot key record hspot hrecord => .inr ⟨hwrites spot key hspot, hless spot key record hrecord⟩

/-- What goes on after a check is flagged if what goes on is, and if nothing is written where the
    check fails. -/
theorem guarded {α β : Type} {check : Except VaultError α} {f : α → Except VaultError β × Tree}
    (hfail : ∀ fault, check = .error fault → ∀ spot key, spot.Valid → writes spot key = none)
    (hf : ∀ a, check = .ok a → FlaggedBy writes t (f a).2) :
    FlaggedBy writes t (TableVault.guarded t check f).2 := by
  cases check with
  | ok a => exact hf a rfl
  | error fault => exact .of_less (hfail fault rfl) fun _ _ _ h => h

end FlaggedBy

/-- A record that has been removed is not there, and the others are as they were. -/
theorem Tree.of_find_remove {spot other : Spot} {key otherKey : String} {record : Bytes}
    (h : ((t.remove spot key).recordsAt other)[otherKey]? = some record) :
    (t.recordsAt other)[otherKey]? = some record := by
  rw [recordsAt_eq, getElem?_remove] at h
  rw [recordsAt_eq]
  split at h
  · next hspot =>
    subst hspot
    cases hrecords : t[other]? with
    | none =>
      rw [hrecords] at h
      exact h
    | some records =>
      rw [hrecords, Option.map_some, Option.getD_some, Std.ExtTreeMap.getElem?_erase] at h
      split at h
      · cases h
      · exact h
  · exact h

/-- What is left after a drop was there. -/
theorem Tree.of_find_drop {base spot : Spot} {key : String} {record : Bytes}
    (h : ((t.drop base).recordsAt spot)[key]? = some record) :
    (t.recordsAt spot)[key]? = some record := by
  rw [recordsAt_eq, getElem?_drop] at h
  rw [recordsAt_eq]
  split at h
  · simp at h
  · exact h

/-- At the key that has been written is the new record, and at the others what was there. -/
theorem Tree.find_put (spot other : Spot) (key otherKey : String) (record : Bytes) :
    ((t.put spot key record).recordsAt other)[otherKey]? =
      if (spot, key) = (other, otherKey) then some record else (t.recordsAt other)[otherKey]? := by
  rw [recordsAt_eq, getElem?_put, recordsAt_eq]
  by_cases hspot : other = spot
  · subst hspot
    simp only [if_true, Option.getD_some, Std.ExtTreeMap.getElem?_insert, Prod.mk.injEq, true_and,
      Std.LawfulEqCmp.compare_eq_iff_eq, recordsAt_eq]
  · rw [if_neg hspot, if_neg fun h => hspot (Prod.mk.inj h).1.symm, recordsAt_eq]

/-- Storing content flags it as asked for. -/
theorem Tree.flagged_store (spot : Spot) (key : String) (content : Content) (encrypt : Bool) :
    FlaggedBy (content.writesAt (spot, key) encrypt) t (t.store e spot key content encrypt).2 := by
  cases content with
  | unwritable reason => exact .of_less (fun _ _ _ => rfl) fun _ _ _ h => h
  | value v =>
    intro other otherKey record _ h
    change ((t.put spot key _).recordsAt other)[otherKey]? = _ at h
    rw [Tree.find_put] at h
    rw [Content.writesAt]
    split at h
    · next hsame =>
      rw [if_pos hsame, ← Option.some.inj h]
      left
      cases encrypt <;> rfl
    · next hother =>
      rw [if_neg hother]
      exact .inr ⟨rfl, h⟩

/-- A request flags what it writes as asked for. -/
theorem Request.flagged (path : List String) (request : Request) :
    FlaggedBy (request.writesAt path) t (request.onTree e path t).2 := by
  have hput : ∀ table key (content : Content) encrypt,
      FlaggedBy (content.writesAt ((path, table), key) encrypt) t
        (TableVault.guarded t (validateName table) fun _ =>
          t.store e (path, table) key content encrypt).2 := by
    intro table key content encrypt
    refine .guarded (fun fault hfault spot other hspot => ?_) fun _ _ => ?_
    swap
    · exact Tree.flagged_store (path, table) key content encrypt
    -- The table has no valid name, so it is not where something could be.
    have hne : ((path, table), key) ≠ (spot, other) := by
      rintro ⟨⟩
      rw [validateName_eq_ok_iff.mpr (Spot.valid_iff.mp hspot).2] at hfault
      cases hfault
    cases content with
    | value v => exact if_neg hne
    | unwritable reason => rfl
  have hless : ∀ {table : String} {f : Unit → Except VaultError Answer × Tree},
      (∀ (spot : Spot) (key : String) (record : Bytes),
        ((f ()).2.recordsAt spot)[key]? = some record → (t.recordsAt spot)[key]? = some record) →
      FlaggedBy (fun _ _ => none) t (TableVault.guarded t (validateName table) f).2 :=
    fun h => .guarded (fun _ _ _ _ _ => rfl) fun _ _ => .of_less (fun _ _ _ => rfl) h
  cases request with
  | set table key content => exact hput table key content false
  | cryptSet table key content => exact hput table key content true
  | unset table key => exact hless fun _ _ _ h => Tree.of_find_remove h
  | drop table => exact hless fun _ _ _ h => Tree.of_find_drop h
  | get table key shape => exact hless fun _ _ _ h => h
  | rawGet table key => exact hless fun _ _ _ h => h
  | contains table key => exact hless fun _ _ _ h => h
  | keys table => exact hless fun _ _ _ h => h
  | countKeys table => exact hless fun _ _ _ h => h
  | tables => exact .of_less (fun _ _ _ => rfl) fun _ _ _ h => h
  | namespaces limitDepth => exact .of_less (fun _ _ _ => rfl) fun _ _ _ h => h

/-- A call flags what it writes as asked for. -/
theorem Call.flagged (call : Call) : FlaggedBy call.writesAt t (call.onTree e t).2 := by
  have hstore : ∀ moves request, FlaggedBy (Call.writesAt (.onStore moves request)) t
      (Call.onTree e t (.onStore moves request)).2 := by
    intro moves request
    refine .guarded (fun fault hfault spot key _ => ?_) fun path hpath => ?_
    · rw [writesAt, hfault]
      rfl
    · have hwrites : Call.writesAt (.onStore moves request) = request.writesAt path := by
        funext spot key
        rw [writesAt, hpath]
        rfl
      rw [hwrites]
      exact Request.flagged path request
  cases call with
  | onStore moves request => exact hstore moves request
  | onView moves table request =>
    rw [Call.onTree_onView]
    exact hstore moves (request.onTable table)

end Flags

/-! ### Runs -/

/-- Two answers are the same, or they are stored records of the same length. -/
inductive Alike : Except VaultError Answer → Except VaultError Answer → Prop
  | same (answer : Except VaultError Answer) : Alike answer answer
  | record {found found' : Option Bytes} (h : found.map (·.length) = found'.map (·.length)) :
    Alike (.ok (.record found)) (.ok (.record found'))

/-- All answers but stored records are the same in plain. -/
theorem Answer.record_or_revealed (e : Encoder) (answer : Answer) :
    (∃ found, answer = .record found) ∨ answer.revealed e = answer := by
  cases answer with
  | record found => exact .inl ⟨found, rfl⟩
  | _ => exact .inr rfl

/-- A stored record is as long as it is in plain. -/
theorem Record.Encoder.map_length_reveal (e : Encoder) (found : Option Bytes) :
    (found.map e.reveal).map (·.length) = found.map (·.length) := by
  cases found with
  | none => rfl
  | some record => exact congrArg some (e.length_reveal record)

/-- Answers that are the same in plain are alike. -/
theorem alike_of_revealed {e e' : Encoder} {answer answer' : Except VaultError Answer}
    (h : answer.map (Answer.revealed e) = answer'.map (Answer.revealed e')) :
    Alike answer answer' := by
  cases answer with
  | error fault =>
    cases answer' with
    | error fault' =>
      obtain rfl : fault = fault' := Except.error.inj h
      exact .same _
    | ok answer' => simp only [Except.map, reduceCtorEq] at h
  | ok answer =>
    cases answer' with
    | error fault' => simp only [Except.map, reduceCtorEq] at h
    | ok answer' =>
      have hplain := Except.ok.inj h
      rcases answer.record_or_revealed e with ⟨found, rfl⟩ | hsame <;>
        rcases answer'.record_or_revealed e' with ⟨found', rfl⟩ | hsame'
      · exact .record <| calc found.map (·.length)
          _ = (found.map e.reveal).map (·.length) := (e.map_length_reveal found).symm
          _ = (found'.map e'.reveal).map (·.length) := by rw [Answer.record.inj hplain]
          _ = found'.map (·.length) := e'.map_length_reveal found'
      · rw [← hsame', ← hplain]
        exact .record (e.map_length_reveal found).symm
      · rw [← hsame, hplain]
        exact .record (e'.map_length_reveal found')
      · rw [← hsame, hplain, hsame']
        exact .same _

section Runs

variable {σ : Type} [Backend σ] [LawfulBackend σ] {e e' : Encoder} {ts us : Tables}

/-- Tables without names spell the empty tree. -/
theorem treeOf_of_names_eq_nil (h : ts.names = []) : treeOf ts = ∅ := by
  rw [treeOf, h, List.map_nil, Std.ExtTreeMap.ofList_nil]

/-- Two open storages have the same tree in plain. -/
def SamePlain (e e' : Encoder) (s t : σ) : Prop :=
  ∃ ts us, view s = some ts ∧ view t = some us ∧ (treeOf ts).revealed e = (treeOf us).revealed e'

/-- Calls that differ in what they encrypt are answered alike, and leave the same tree in
    plain. -/
theorem Call.alike (hm : ¬ mortal σ) (call call' : Call) (s t : σ)
    (hcall : call.plain = call'.plain) (hst : SamePlain e e' s t) :
    Alike (outcome (call.run ⟨e, .root⟩) s).1 (outcome (call'.run ⟨e', .root⟩) t).1 ∧
      SamePlain e e' (outcome (call.run ⟨e, .root⟩) s).2 (outcome (call'.run ⟨e', .root⟩) t).2 := by
  obtain ⟨ts, us, hs, ht, hplain⟩ := hst
  obtain ⟨hanswer, ts', hs', hts', -⟩ := Call.refines hm e call hs
  obtain ⟨hanswer', us', ht', hus', -⟩ := Call.refines hm e' call' ht
  -- Both do what their plain call does to the tree in plain.
  have hsame : revealedEffect e (call.onTree e (treeOf ts)) =
      revealedEffect e' (call'.onTree e' (treeOf us)) :=
    calc revealedEffect e (call.onTree e (treeOf ts))
      _ = call.plain.onTree e ((treeOf ts).revealed e) := call.onTree_plain e
      _ = call'.plain.onTree e ((treeOf us).revealed e') := by rw [hcall, hplain]
      _ = revealedEffect e' (call'.onTree e' (treeOf us)) := (call'.onTree_plain e).symm
  refine ⟨?_, ts', us', hs', ht', ?_⟩
  · rw [hanswer, hanswer']
    exact alike_of_revealed (congrArg Prod.fst hsame)
  · rw [hts', hus']
    exact congrArg Prod.snd hsame

/-- The flags of stored records tell how they were written since the storage was empty. -/
theorem flagsTell_serve (hm : ¬ mortal σ) (e : Encoder) (calls : List Call) {s : σ}
    (hs : view s = some ts) (hts : ts.names = []) :
    FlagsTell calls (Store.serve ⟨e, .root⟩ calls s).1 := by
  have hstart : ∃ ts, view s = some ts ∧ Flagged [] (treeOf ts) := by
    refine ⟨ts, hs, fun spot key record _ h => ?_⟩
    rw [treeOf_of_names_eq_nil hts, Tree.recordsAt_eq] at h
    simp at h
  have hstep : ∀ before (call : Call) (s : σ),
      (∃ ts, view s = some ts ∧ Flagged before (treeOf ts)) →
      ∃ ts, view (outcome (call.run ⟨e, .root⟩) s).2 = some ts ∧
        Flagged (before ++ [call]) (treeOf ts) := by
    rintro before call s ⟨ts, hs, hflagged⟩
    obtain ⟨-, us, hview, htree, -⟩ := Call.refines hm e call hs
    exact ⟨us, hview, hflagged.concat (htree ▸ call.flagged)⟩
  intro n moves path table key record hcall hpath hanswer
  obtain ⟨us, hview, hflagged⟩ := trace_history hstep hstart (calls.take n)
  rw [Store.serve, getElem?_trace, hcall, Option.map_some,
    (Call.refines hm e _ hview).1, Call.onTree, hpath] at hanswer
  rw [List.nil_append] at hflagged
  change some (guarded _ (validateName table) _).1 = _ at hanswer
  cases htable : validateName table with
  | error fault =>
    rw [htable] at hanswer
    cases hanswer
  | ok u =>
    rw [htable] at hanswer
    have hspot : Spot.Valid (path, table) := Spot.valid_iff.mpr
      ⟨valid_of_pathAfter (by simp) hpath, validateName_eq_ok_iff.mp htable⟩
    have hrecord : ((treeOf us).recordsAt (path, table))[key]? = some record :=
      Answer.record.inj (Except.ok.inj (Option.some.inj hanswer))
    rw [hflagged (path, table) key record hspot hrecord, Option.some.injEq, isEncrypted, beq_iff_eq]
    rfl

/-- **Encryption is transparent.** Two runs of the same calls on storages without tables that
    differ in the key of the vault and in which of their writes are encrypted are answered alike:
    whatever is read or listed is the same, and so is every error, and stored records have the
    same length. Their first byte tells whether the last write of the key was encrypted. -/
theorem encryption_is_transparent (hm : ¬ mortal σ) (e e' : Encoder) {calls calls' : List Call}
    (hcalls : calls.map Call.plain = calls'.map Call.plain) {s t : σ}
    (hs : view s = some ts) (hts : ts.names = []) (ht : view t = some us) (hus : us.names = []) :
    List.Forall₂ Alike (Store.serve ⟨e, .root⟩ calls s).1 (Store.serve ⟨e', .root⟩ calls' t).1 ∧
      FlagsTell calls (Store.serve ⟨e, .root⟩ calls s).1 ∧
      FlagsTell calls' (Store.serve ⟨e', .root⟩ calls' t).1 := by
  refine ⟨?_, flagsTell_serve hm e calls hs hts, flagsTell_serve hm e' calls' ht hus⟩
  have hrelated : List.Forall₂ (fun call call' => call.plain = call'.plain) calls calls' := by
    rwa [← List.forall₂_eq_eq_eq, List.forall₂_map_left_iff, List.forall₂_map_right_iff] at hcalls
  have hplain : ∀ e : Encoder, (∅ : Tree).revealed e = ∅ := fun e =>
    Std.ExtTreeMap.map_eq_empty_iff.mpr rfl
  have hstart : SamePlain e e' s t := by
    refine ⟨ts, us, hs, ht, ?_⟩
    rw [treeOf_of_names_eq_nil hts, treeOf_of_names_eq_nil hus, hplain, hplain]
  exact (trace_related (Call.alike hm) hrelated hstart).1

end Runs

/-- The stored record in an answer. -/
def Answer.stored? : Except VaultError Answer → Option Bytes
  | .ok (.record found) => found
  | _ => none

/-- An answer with a stored record. -/
theorem Answer.of_stored {answer : Option (Except VaultError Answer)}
    (h : (answer.bind stored?).isSome = true) :
    ∃ record, answer = some (.ok (.record (some record))) := by
  obtain ⟨record, hrecord⟩ := Option.isSome_iff_exists.mp h
  cases answer with
  | none => cases hrecord
  | some answer =>
    cases answer with
    | error fault => cases hrecord
    | ok answer =>
      cases answer with
      | record found =>
        obtain rfl : found = some record := hrecord
        exact ⟨record, rfl⟩
      | _ => cases hrecord

/-- The same value under two keys, overwritten once with and once without encryption. The stored
    records are as long as each other, and their first bytes tell them apart. -/
theorem encryption_is_transparent_overwritten :
    let e : Encoder := .ofMaster ⟨.replicate Crypto.keySize 7, by decide⟩
    let e' : Encoder := .ofMaster ⟨.replicate Crypto.keySize 8, by decide⟩
    let value : Content := .value (.unsigned 5)
    let rest : List Call := [.onStore [] (.rawGet "t" "k"), .onView [.clone] "t" (.get "k" .text)]
    let calls : List Call :=
      .onStore [] (.set "t" "k" value) :: .onStore [] (.cryptSet "t" "k" value) :: rest
    let calls' : List Call :=
      .onStore [] (.cryptSet "t" "k" value) :: .onStore [] (.set "t" "k" value) :: rest
    let answers := (Store.serve ⟨e, .root⟩ calls Memory.empty).1
    let answers' := (Store.serve ⟨e', .root⟩ calls' Memory.empty).1
    List.Forall₂ Alike answers answers' ∧
      ∃ record record', answers[2]? = some (.ok (.record (some record))) ∧
        answers'[2]? = some (.ok (.record (some record'))) ∧
        record.head? = some 1 ∧ record'.head? ≠ some 1 := by
  intro e e' value rest calls calls' answers answers'
  have hcalls : calls.map Call.plain = calls'.map Call.plain := rfl
  have hs : view Memory.empty = some ∅ := rfl
  obtain ⟨halike, hflags, hflags'⟩ :=
    encryption_is_transparent (fun h => h) e e' hcalls hs rfl hs rfl
  obtain ⟨record, hrecord⟩ : ∃ record, answers[2]? = some (.ok (.record (some record))) :=
    Answer.of_stored (by decide +kernel)
  obtain ⟨record', hrecord'⟩ : ∃ record, answers'[2]? = some (.ok (.record (some record))) :=
    Answer.of_stored (by decide +kernel)
  refine ⟨halike, record, record', hrecord, hrecord', ?_, fun hhead => ?_⟩
  · exact (hflags 2 [] [] "t" "k" record rfl rfl hrecord).mpr (by decide +kernel)
  · have hlast := (hflags' 2 [] [] "t" "k" record' rfl rfl hrecord').mp hhead
    exact absurd hlast (by decide +kernel)

end TableVault
