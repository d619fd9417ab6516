import TableVault.Proofs.Storage.Closing
import TableVault.Proofs.Store.Calls
import TableVault.Proofs.Tree.Path

namespace TableVault

open Storage Record

/-!
# Failures are atomic and closing is final

* `Interaction` — what can be done with the handles on a vault: moves, requests to stores and to
  views of tables, and closing. The handles may be any handles;
* `Interaction.check` — what is wrong with an interaction before it reaches the backend: an invalid
  name (`Interaction.check_of_invalid`), or else content that cannot be written
  (`Interaction.Named.check_of_unwritable`);
* `Request.run_closed` and `Request.effect_eq` — a request that passes its check is refused by
  closed storage, and on open storage only reading content may fail;
* `Interaction.atomic` — an interaction that fails changes nothing;
* `Interaction.performed` — what an interaction that passes its check answers and leaves;
* `isNone_view_interact` — after a run the storage is closed if one of the interactions closed it;
* `failures_are_atomic_and_closing_is_final` — all of this after any run.
-/

/-! ### Interactions -/

/-- What can be done with a handle on a vault. -/
inductive Interaction where
  | move (s : Store) (way : Move)
  | ask (s : Store) (request : Request)
  | askView (v : View) (request : ViewRequest)
  | close (s : Store)

/-- What an interaction is answered with. -/
inductive Response where
  | handle (s : Store)
  | answer (a : Answer)
  | closed

/-- The name of a segment or a table that a way is given. -/
def Move.name? : Move → Option String
  | .clone => none
  | .sub name | .bucket name | .table name => some name

/-- The name of a table that a request is given. -/
def Request.name? : Request → Option String
  | .set table _ _ | .cryptSet table _ _ | .unset table _ | .drop table | .get table _ _
  | .rawGet table _ | .contains table _ | .keys table | .countKeys table => some table
  | .tables | .namespaces _ => none

/-- The content that a request is to write. -/
def Request.content? : Request → Option Content
  | .set _ _ content | .cryptSet _ _ content => some content
  | _ => none

/-- A request to read content. -/
def Request.reads : Request → Bool
  | .get _ _ _ => true
  | _ => false

namespace Interaction

/-- The name that an interaction is given. -/
def name? : Interaction → Option String
  | .move _ way => way.name?
  | .ask _ request => request.name?
  | .askView v _ => some v.name
  | .close _ => none

/-- The content that an interaction is to write. -/
def content? : Interaction → Option Content
  | .ask _ request => request.content?
  | .askView v request => (request.onTable v.name).content?
  | .move _ _ | .close _ => none

/-- An interaction that reads content. -/
def reads : Interaction → Bool
  | .ask _ request => request.reads
  | .askView v request => (request.onTable v.name).reads
  | .move _ _ | .close _ => false

/-- An interaction that looks at the tables or changes them. -/
def asks : Interaction → Bool
  | .ask _ _ | .askView _ _ => true
  | .move _ _ | .close _ => false

/-- An interaction that closes the vault. -/
def closes : Interaction → Bool
  | .close _ => true
  | _ => false

/-- The name is valid, if one is given. -/
def Named (act : Interaction) : Prop := ∀ name, act.name? = some name → ValidName name

/-- What is to be written can be written. -/
def Writable (act : Interaction) : Prop := ∀ reason, act.content? ≠ some (.unwritable reason)

variable {σ : Type} [Backend σ]

/-- Does what is asked for. -/
def run : Interaction → Action σ Response
  | .move s way => do return .handle (← Action.ofExcept (s.move way))
  | .ask s request => do return .answer (← request.run s)
  | .askView v request => do return .answer (← request.run v)
  | .close s => do s.close; return .closed

end Interaction

/-! ### Checks -/

/-- What is wrong with a name, if one is given. -/
def checkName : Option String → Except VaultError Unit
  | some name => validateName name
  | none => .ok ()

/-- What is wrong with content, if there is any to be written. -/
def checkContent : Option Content → Except VaultError Unit
  | some (.unwritable reason) => .error (.codec (.encodingFailed reason))
  | _ => .ok ()

/-- What is wrong with a request before it reaches the backend. The name is checked first. -/
def Request.check (request : Request) : Except VaultError Unit := do
  checkName request.name?
  checkContent request.content?

/-- A table of a place has a backend name if its own name is valid. -/
theorem qualify_of_check (ns : Namespace) (table : String) :
    ns.qualify table = (checkName (some table)).map fun _ => ns.stem ++ table := by
  rw [Namespace.qualify, checkName]
  cases validateName table <;> rfl

/-- Content has a record if it can be written. -/
theorem encode_of_check (e : Encoder) (content : Content) (encrypt : Bool) :
    ∃ record, (e.encode content encrypt).mapError VaultError.codec =
      (checkContent (some content)).map fun _ => record := by
  cases content with
  | value v => exact ⟨_, rfl⟩
  | unwritable reason => exact ⟨[], rfl⟩

/-! ### Requests to closed storage -/

section Closed

variable {σ α β : Type} {s : Store} {t : σ}

/-- What comes after an error is not done. -/
theorem bind_of_refused {check : Except VaultError Unit} {x : Action σ α}
    (hx : x t = answering (do check; .error (.storage .closed)) t) (f : α → Action σ β) :
    (x >>= f) t = answering (do check; .error (.storage .closed)) t := by
  cases check with
  | error e => exact bind_of_error hx f
  | ok u => exact bind_of_error hx f

variable [Backend σ] [Closable σ]

/-- On closed storage an operation on a table fails in checking its name or else is refused. -/
theorem Store.onTable_closed (ht : view t = none) (table : String) {x : String → StorageAction σ α}
    (hx : ∀ name, Barred (x name)) :
    s.onTable table x t =
      answering (do checkName (some table); .error (.storage .closed)) t := by
  have hrefused : ∀ name, Action.ofStorage (x name) t = .error (.storage .closed) t :=
    fun name => ofStorage_of_error (hx name t ht)
  unfold Store.onTable
  rw [qualify_of_check]
  cases checkName (some table) with
  | error e => rfl
  | ok u => exact (bind_of_ok rfl _).trans (hrefused _)

/-- On closed storage storing content fails in its check or else is refused. -/
theorem Store.put_closed (ht : view t = none) (table key : String) (content : Content)
    (encrypt : Bool) :
    s.put table key content encrypt t =
      answering (do (Request.set table key content).check; .error (.storage .closed)) t := by
  obtain ⟨record, hrecord⟩ := encode_of_check s.encoder content encrypt
  have hrefused : ∀ name, Action.ofStorage (Backend.set name key record) t =
      .error (.storage .closed) t :=
    fun name => ofStorage_of_error (Closable.set_barred name key record t ht)
  unfold Store.put Action.ofCodec
  rw [qualify_of_check, hrecord, Request.check, Request.name?, Request.content?]
  cases checkName (some table) with
  | error e => rfl
  | ok u =>
    cases checkContent (some content) with
    | error e => rfl
    | ok v => exact hrefused _

/-- On closed storage nothing is listed. -/
theorem Store.list_closed (ht : view t = none) (g : List String → β) :
    (do return g (← Action.ofStorage Backend.tables) : Action σ β) t =
      .error (.storage .closed) t :=
  bind_of_error (ofStorage_of_error (Closable.tables_barred t ht)) _

open Closable in
/-- **Closed storage.** A request fails in its check or else is refused. -/
theorem Request.run_closed (ht : view t = none) (s : Store) (request : Request) :
    request.run s t = answering (do request.check; .error (.storage .closed)) t := by
  have hraw : ∀ table key, s.rawGet table key t =
      answering (do checkName (some table); .error (.storage .closed)) t :=
    fun table key => Store.onTable_closed ht table fun name => get_barred name key
  rw [Request.check, bind_assoc]
  cases request with
  | set table key content =>
    rw [← bind_assoc]
    exact bind_of_refused (Store.put_closed ht table key content false) _
  | cryptSet table key content =>
    rw [← bind_assoc]
    exact bind_of_refused (Store.put_closed ht table key content true) _
  | unset table key =>
    exact bind_of_refused (Store.onTable_closed ht table fun name => unset_barred name key) _
  | drop table => exact bind_of_refused (Store.onTable_closed ht table dropTable_barred) _
  | get table key shape => exact bind_of_refused (bind_of_refused (hraw table key) _) _
  | rawGet table key => exact bind_of_refused (hraw table key) _
  | contains table key => exact bind_of_refused (bind_of_refused (hraw table key) _) _
  | keys table => exact bind_of_refused (Store.onTable_closed ht table keys_barred) _
  | countKeys table => exact bind_of_refused (Store.onTable_closed ht table countKeys_barred) _
  | tables => exact bind_of_error (Store.list_closed ht _) _
  | namespaces limitDepth => exact bind_of_error (Store.list_closed ht _) _

end Closed

/-! ### Requests to open storage -/

section Open

variable {s : Store} {ts : Tables} {e : VaultError}

/-- An effect on a table depends on the check of its name. -/
theorem guarded_qualify {α : Type} (s : Store) (ts : Tables) (table : String)
    (f : String → Except VaultError α × Tables) :
    guarded ts (s.position.qualify table) f =
      guarded ts (checkName (some table)) fun _ => f (s.position.stem ++ table) := by
  rw [qualify_of_check]
  cases checkName (some table) <;> rfl

/-- Storing content depends on the checks of the name and of the content. -/
theorem Store.putEffect_eq (s : Store) (ts : Tables) (table key : String) (content : Content)
    (encrypt : Bool) :
    ∃ us, s.putEffect ts table key content encrypt =
      guarded ts (checkName (some table) >>= fun _ => checkContent (some content))
        fun _ => (.ok (), us) := by
  obtain ⟨record, hrecord⟩ := encode_of_check s.encoder content encrypt
  refine ⟨ts.put (s.position.stem ++ table) key record, ?_⟩
  rw [Store.putEffect, guarded_qualify, hrecord]
  cases checkName (some table) with
  | error e => rfl
  | ok u => cases checkContent (some content) <;> rfl

/-- Content that is found fails to be read only by its record. -/
theorem Store.contentAt_eq_error {name key : String} {shape : Cbor.Shape}
    (h : s.contentAt ts name key shape = .error e) : ∃ fault, e = .codec fault := by
  unfold Store.contentAt at h
  split at h
  · next record _ =>
    cases hdecode : s.encoder.decode shape record with
    | ok value =>
      rw [hdecode] at h
      cases h
    | error fault =>
      rw [hdecode] at h
      exact ⟨fault, (Except.error.inj h).symm⟩
  · cases h

/-- **Open storage.** A request fails in its check and changes nothing, or goes on, and then fails
    only in reading content. -/
theorem Request.effect_eq (s : Store) (ts : Tables) (request : Request) :
    ∃ r us, request.effect s ts = guarded ts request.check (fun _ => (r, us)) ∧
      ∀ e, r = .error e → request.reads = true ∧ ∃ fault, e = .codec fault := by
  -- Only the name is checked of all requests but those that write.
  have honTable : ∀ {α : Type} (g : α → Answer) (table : String)
      (f : String → Except VaultError α × Tables),
      mapAnswer g (guarded ts (s.position.qualify table) f) =
        guarded ts (checkName (some table) >>= fun _ => .ok ()) fun _ =>
          mapAnswer g (f (s.position.stem ++ table)) := by
    intro α g table f
    rw [guarded_qualify, mapAnswer_guarded]
    cases checkName (some table) <;> rfl
  cases request with
  | set table key content =>
    obtain ⟨us, hput⟩ := s.putEffect_eq ts table key content false
    refine ⟨.ok .done, us, ?_, nofun⟩
    rw [Request.effect, hput, mapAnswer_guarded]
    rfl
  | cryptSet table key content =>
    obtain ⟨us, hput⟩ := s.putEffect_eq ts table key content true
    refine ⟨.ok .done, us, ?_, nofun⟩
    rw [Request.effect, hput, mapAnswer_guarded]
    rfl
  | unset table key => exact ⟨.ok .done, _, honTable _ table _, nofun⟩
  | drop table => exact ⟨.ok .done, _, honTable _ table _, nofun⟩
  | get table key shape =>
    refine ⟨_, _, honTable _ table _, fun e he => ⟨rfl, ?_⟩⟩
    replace he : (s.contentAt ts (s.position.stem ++ table) key shape).map (Answer.content shape) =
      .error e := he
    cases hcontent : s.contentAt ts (s.position.stem ++ table) key shape with
    | ok value =>
      rw [hcontent] at he
      cases he
    | error fault =>
      rw [hcontent] at he
      exact Except.error.inj he ▸ Store.contentAt_eq_error hcontent
  | rawGet table key => exact ⟨.ok _, _, honTable _ table _, nofun⟩
  | contains table key => exact ⟨.ok _, _, honTable _ table _, nofun⟩
  | keys table => exact ⟨.ok _, _, honTable _ table _, nofun⟩
  | countKeys table => exact ⟨.ok _, _, honTable _ table _, nofun⟩
  | tables => exact ⟨.ok _, ts, rfl, nofun⟩
  | namespaces limitDepth => exact ⟨.ok _, ts, rfl, nofun⟩

end Open

/-! ### Failures -/

section Failures

variable {σ α : Type}

/-- An operation on a table is atomic if it is as a backend operation. -/
theorem Store.onTable_atomic (s : Store) (table : String) {x : String → StorageAction σ α}
    (hx : ∀ name, Atomic (x name)) : Atomic (s.onTable table x) :=
  .bind (.ofExcept _) fun name => .ofStorage (hx name)

variable [Backend σ] [Closable σ]

/-- Looking for a record never changes the state. -/
theorem Store.rawGet_still (s : Store) (table key : String) :
    Still (s.rawGet table key : Action σ (Option Bytes)) :=
  .bind (.ofExcept _) fun name => .ofStorage (Closable.get_still name key)

/-- Storing content is atomic. -/
theorem Store.put_atomic (s : Store) (table key : String) (content : Content) (encrypt : Bool) :
    Atomic (s.put table key content encrypt : Action σ Unit) :=
  .bind (.ofExcept _) fun name => .bind (.ofExcept _) fun record =>
    .ofStorage ((Closable.set_barred name key record).atomic
      fun ts => ⟨_, _, _, LawfulBackend.set_runs ts name key record⟩)

/-- Listing what there is at or below a place is atomic. -/
theorem Store.list_atomic (g : List String → α) :
    Atomic (do return g (← Action.ofStorage Backend.tables) : Action σ α) :=
  .map g (.ofStorage (Closable.tables_barred.atomic
    fun ts => ⟨_, _, _, LawfulBackend.tables_runs ts⟩))

open Closable LawfulBackend in
/-- A request that fails changes nothing. -/
theorem Request.atomic (s : Store) (request : Request) :
    Atomic (request.run s : Action σ Answer) := by
  cases request with
  | set table key content => exact .map _ (s.put_atomic table key content false)
  | cryptSet table key content => exact .map _ (s.put_atomic table key content true)
  | unset table key =>
    exact .map _ (s.onTable_atomic table fun name => (unset_barred name key).atomic
      fun ts => ⟨_, _, _, unset_runs ts name key⟩)
  | drop table =>
    exact .map _ (s.onTable_atomic table fun name => (dropTable_barred name).atomic
      fun ts => ⟨_, _, _, dropTable_runs ts name⟩)
  | get table key shape =>
    refine .map _ (.bind (s.rawGet_still table key) fun found => ?_)
    cases found with
    | some record => exact (Still.ofExcept _).atomic
    | none => exact (Still.pure none).atomic
  | rawGet table key => exact .map _ (s.rawGet_still table key).atomic
  | contains table key => exact .map _ (.map _ (s.rawGet_still table key).atomic)
  | keys table =>
    exact .map _ (s.onTable_atomic table fun name => (keys_barred name).atomic
      fun ts => ⟨_, _, _, keys_runs ts name⟩)
  | countKeys table =>
    exact .map _ (s.onTable_atomic table fun name => (countKeys_barred name).atomic
      fun ts => ⟨_, _, _, countKeys_runs ts name⟩)
  | tables => exact .map _ (Store.list_atomic _)
  | namespaces limitDepth => exact .map _ (Store.list_atomic _)

/-- **Failures are atomic.** An interaction that fails changes nothing. -/
theorem Interaction.atomic (act : Interaction) : Atomic (act.run : Action σ Response) := by
  cases act with
  | move s way => exact .map _ (Still.ofExcept _).atomic
  | ask s request => exact .map _ (request.atomic s)
  | askView v request =>
    refine .map _ ?_
    rw [ViewRequest.run_eq]
    exact (request.onTable v.name).atomic v.store
  | close s =>
    refine .map _ (.ofStorage fun t e t' ht => ?_)
    obtain ⟨t'', hclose, -⟩ := Closable.close_eq t
    rw [hclose] at ht
    cases ht

end Failures

/-! ### Interactions one by one -/

namespace Interaction

/-- What is wrong with an interaction before it reaches the backend. The name is checked first. -/
def check (act : Interaction) : Except VaultError Unit := do
  checkName act.name?
  checkContent act.content?

/-- An invalid name is what is wrong with an interaction, whatever else is. -/
theorem check_of_invalid {act : Interaction} {name : String} (hname : act.name? = some name)
    (hinvalid : ¬ ValidName name) :
    act.check = .error (.invalidName name (if name = "" then .empty else .containsSeparator)) := by
  have hfault : name = "" ∨ separator ∈ name.toList := by
    rwa [ValidName, not_and_or, not_not, not_not] at hinvalid
  have hcheck := validateName_eq_error hfault
  rw [check, hname, checkName, hcheck]
  rfl

/-- A valid name passes the check. -/
theorem Named.checkName {act : Interaction} (h : act.Named) : checkName act.name? = .ok () := by
  cases hname : act.name? with
  | none => rfl
  | some name => exact validateName_eq_ok_iff.mpr (h name hname)

/-- With a valid name, content that cannot be written is what is wrong with an interaction. -/
theorem Named.check_of_unwritable {act : Interaction} (h : act.Named) {reason : String}
    (hcontent : act.content? = some (.unwritable reason)) :
    act.check = .error (.codec (.encodingFailed reason)) := by
  rw [check, h.checkName, hcontent]
  rfl

/-- With a valid name and content that can be written nothing is wrong with an interaction. -/
theorem Named.check_of_writable {act : Interaction} (h : act.Named) (hwritable : act.Writable) :
    act.check = .ok () := by
  rw [check, h.checkName]
  match hcontent : act.content? with
  | none => rfl
  | some (.value v) => rfl
  | some (.unwritable reason) => exact absurd hcontent (hwritable reason)

/-- Only what asks the backend for something has content to write. -/
theorem writable_of_not_asks {act : Interaction} (h : act.asks = false) : act.Writable := by
  intro reason hcontent
  cases act with
  | move s way => cases hcontent
  | ask s request => cases h
  | askView v request => cases h
  | close s => cases hcontent

/-- Reading asks the backend for something. -/
theorem asks_of_reads {act : Interaction} (h : act.reads = true) : act.asks = true := by
  cases act with
  | move s way => cases h
  | ask s request => rfl
  | askView v request => rfl
  | close s => cases h

/-- A move arrives if its name is valid. -/
theorem move_of_check (s : Store) (way : Move) :
    ∃ s', s.move way = (TableVault.checkName way.name?).map fun _ => s' := by
  cases way with
  | clone => exact ⟨s, rfl⟩
  | sub name =>
    refine ⟨{ s with position := ⟨s.position.stem ++ terminated name⟩ }, ?_⟩
    show s.sub name = (validateName name).map _
    rw [Store.sub, Namespace.sub]
    cases validateName name <;> rfl
  | bucket name =>
    refine ⟨{ s with position := ⟨terminated sharedRoot ++ terminated name⟩ }, ?_⟩
    show s.bucket name = (validateName name).map _
    rw [Store.bucket, Namespace.shared]
    cases validateName name <;> rfl
  | table name =>
    refine ⟨s, ?_⟩
    show (do return (← s.table name).store) = (validateName name).map _
    rw [Store.table, Namespace.qualify]
    cases validateName name <;> rfl

variable {σ : Type} [Backend σ] [Closable σ] {t : σ}

/-- What an interaction that passes its check answers, and the state that it leaves. -/
structure Performed (act : Interaction) (t : σ) (r : Except VaultError Response) (t' : σ) :
    Prop where
  /-- The storage is closed afterwards if it was before, or by closing it. -/
  closed : (view t').isNone = ((view t).isNone || act.closes)
  /-- Closed storage refuses whatever looks at the tables or changes them. -/
  refused : view t = none → act.asks = true → r = .error (.storage .closed)
  /-- Apart from that only reading fails, and only on open storage. -/
  fails : ∀ e, r = .error e → view t = none ∧ act.asks = true ∧ e = .storage .closed ∨
    view t ≠ none ∧ act.reads = true ∧ ∃ fault, e = .codec fault

/-- A request to a store is performed if it passes its check. -/
theorem performed_ask (s : Store) (request : Request) (t : σ) :
    ∃ r t', (ask s request).run t = answering (do request.check; r) t' ∧
      Performed (ask s request) t r t' := by
  cases ht : view t with
  | none =>
    refine ⟨.error (.storage .closed), t, ?_, ?_, fun _ _ => rfl, ?_⟩
    · exact bind_of_refused (request.run_closed ht s) _
    · rw [ht]
      rfl
    · rintro e he
      exact .inl ⟨ht, rfl, (Except.error.inj he).symm⟩
  | some ts =>
    obtain ⟨r, us, heffect, hfails⟩ := request.effect_eq s ts
    obtain ⟨t', hrun, hview⟩ :=
      ((request.runs s ts).map Response.answer).outcome Closable.immortal ht
    refine ⟨r.map .answer, t', ?_, ?_, ?_, ?_⟩
    · refine hrun.trans (congrArg (answering · t') ?_)
      rw [heffect]
      cases request.check <;> rfl
    · rw [hview, ht]
      rfl
    · intro hclosed
      rw [ht] at hclosed
      cases hclosed
    · intro e he
      cases r with
      | ok a => cases he
      | error fault =>
        obtain rfl : fault = e := Except.error.inj he
        exact .inr ⟨by simp [ht], hfails fault rfl⟩

/-- An interaction is performed if it passes its check. -/
theorem performed (act : Interaction) (t : σ) :
    ∃ r t', act.run t = answering (do act.check; r) t' ∧ Performed act t r t' := by
  cases act with
  | move s way =>
    obtain ⟨s', hs'⟩ := move_of_check s way
    refine ⟨.ok (.handle s'), t, ?_, ?_, nofun, nofun⟩
    · rw [run, hs', check, name?]
      cases TableVault.checkName way.name? <;> rfl
    · exact (Bool.or_false _).symm
  | ask s request => exact performed_ask s request t
  | askView v request =>
    -- A view makes its requests to its store.
    obtain ⟨r, t', hrun, hperformed⟩ := performed_ask v.store (request.onTable v.name) t
    have hname : (request.onTable v.name).name? = some v.name := by cases request <;> rfl
    refine ⟨r, t', ?_, hperformed.closed, hperformed.refused, hperformed.fails⟩
    rw [run, ViewRequest.run_eq]
    rw [Request.check, hname] at hrun
    exact hrun
  | close s =>
    obtain ⟨t', hclose, hview⟩ := Closable.close_eq t
    refine ⟨.ok .closed, t', ?_, ?_, nofun, nofun⟩
    · exact bind_of_ok (ofStorage_of_ok hclose) _
    · rw [hview]
      exact (Bool.or_true _).symm

end Interaction

/-! ### Interactions one after another -/

section Runs

variable {σ : Type} [Backend σ] [Closable σ]

/-- Interactions one after another, through any handles. -/
def interact (acts : List Interaction) (s : σ) : List (Except VaultError Response) × σ :=
  trace (fun act => outcome act.run) acts s

/-- **Closing is final.** After interactions with open storage it is closed if it has been closed by
    one of them. -/
theorem isNone_view_interact {s : σ} (hs : (view s).isSome) (acts : List Interaction) :
    (view (interact acts s).2).isNone = acts.any Interaction.closes := by
  have hstart : (view s).isNone = ([] : List Interaction).any Interaction.closes := by
    simpa using hs
  refine trace_history (f := fun act => outcome act.run)
    (I := fun before (s : σ) => (view s).isNone = before.any Interaction.closes) ?_ hstart acts
  intro before act s hbefore
  obtain ⟨r, s', hrun, hperformed⟩ := act.performed s
  rw [outcome_of_answering hrun, hperformed.closed, hbefore, List.any_append, List.any_cons,
    List.any_nil, Bool.or_false]

/-- **Failures are atomic and closing is final.** After any interactions with open storage, through
    whatever handles, an interaction that fails leaves the state as it was. An invalid name is what
    it fails with, whatever else is wrong. Otherwise it is content that cannot be written, and
    otherwise, for all but moves and closing itself, that the storage has been closed by an earlier
    interaction. If it has not been, only reading content fails. After closing moves with valid
    names and closing still succeed, and nothing else does. -/
theorem failures_are_atomic_and_closing_is_final {s₀ : σ} (hopen : (view s₀).isSome)
    (before : List Interaction) (act : Interaction) :
    let s := (interact before s₀).2
    let answer := (outcome act.run s).1
    (∀ e, answer = .error e → (outcome act.run s).2 = s) ∧
    (∀ name, act.name? = some name → ¬ ValidName name →
      answer = .error (.invalidName name (if name = "" then .empty else .containsSeparator))) ∧
    (act.Named → ∀ reason, act.content? = some (.unwritable reason) →
      answer = .error (.codec (.encodingFailed reason))) ∧
    (act.Named → act.Writable →
      (answer = .error (.storage .closed) ↔
        act.asks = true ∧ ∃ earlier ∈ before, earlier.closes = true) ∧
      ∀ e, answer = .error e → e = .storage .closed ∨
        (¬ ∃ earlier ∈ before, earlier.closes = true) ∧ act.reads = true ∧
          ∃ fault, e = .codec fault) ∧
    ((∃ earlier ∈ before, earlier.closes = true) → act.asks = true →
      ∀ response, answer ≠ .ok response) ∧
    (act.Named → act.asks = false → ∃ response, answer = .ok response) := by
  intro s answer
  have hclosed : view s = none ↔ ∃ earlier ∈ before, earlier.closes = true := by
    rw [← Option.isNone_iff_eq_none, isNone_view_interact hopen, List.any_eq_true]
  obtain ⟨r, s', hrun, hperformed⟩ := act.performed s
  have hanswer : answer = (do act.check; r) := congrArg Prod.fst (outcome_of_answering hrun)
  refine ⟨fun e he => act.atomic.outcome he, ?_, ?_, ?_, ?_, ?_⟩
  · intro name hname hinvalid
    rw [hanswer, act.check_of_invalid hname hinvalid]
    rfl
  · intro hnamed reason hcontent
    rw [hanswer, hnamed.check_of_unwritable hcontent]
    rfl
  · intro hnamed hwritable
    obtain rfl : answer = r := by
      rw [hanswer, hnamed.check_of_writable hwritable]
      rfl
    rw [← hclosed]
    refine ⟨⟨fun hfail => ?_, fun ⟨hasks, hnone⟩ => hperformed.refused hnone hasks⟩, fun e he => ?_⟩
    · rcases hperformed.fails _ hfail with ⟨hnone, hasks, -⟩ | ⟨-, -, fault, hfault⟩
      · exact ⟨hasks, hnone⟩
      · cases hfault
    · rcases hperformed.fails e he with ⟨-, -, rfl⟩ | hread
      · exact .inl rfl
      · exact .inr hread
  · intro hclose hasks response
    rw [hanswer, hperformed.refused (hclosed.mpr hclose) hasks]
    cases act.check with
    | error e => exact fun h => nomatch h
    | ok u => exact fun h => nomatch h
  · intro hnamed hasks
    rw [hanswer, hnamed.check_of_writable (Interaction.writable_of_not_asks hasks)]
    cases hr : r with
    | ok response => exact ⟨response, rfl⟩
    | error e =>
      -- Only what asks the backend for something fails after its check.
      rcases hperformed.fails e hr with ⟨-, hasks', -⟩ | ⟨-, hreads, -⟩
      · rw [hasks] at hasks'
        cases hasks'
      · rw [Interaction.asks_of_reads hreads] at hasks
        cases hasks

/-- Content is stored in memory, and the vault closed through a handle at another place. From then
    on the keys of the table are refused through the first handle, and content without a form is
    still told from an empty name. -/
theorem failures_are_atomic_and_closing_is_final_sibling :
    let top : Store := ⟨.ofMaster ⟨.replicate Crypto.keySize 7, by decide⟩, .root⟩
    let before : List Interaction := [.ask top (.set "t" "k" (.value (.unsigned 5))),
      .close ⟨top.encoder, ⟨terminated "a"⟩⟩, .move top (.sub "b")]
    let s := (interact before Memory.empty).2
    (outcome (Interaction.ask top (.keys "t")).run s).1 = .error (.storage .closed) ∧
      (outcome (Interaction.ask top (.set "" "k" (.unwritable "no"))).run s).1 =
        .error (.invalidName "" .empty) ∧
      (outcome (Interaction.ask top (.set "t" "k" (.unwritable "no"))).run s).1 =
        .error (.codec (.encodingFailed "no")) := by
  intro top before s
  have hvalid : ∀ name, some "t" = some name → ValidName name := by
    rintro _ ⟨⟩
    exact validateName_eq_ok_iff.mp rfl
  have hopen : (view Memory.empty).isSome := rfl
  have hlater := failures_are_atomic_and_closing_is_final hopen before
  obtain ⟨-, -, -, hkeys, -⟩ := hlater (.ask top (.keys "t"))
  obtain ⟨-, hname, -⟩ := hlater (.ask top (.set "" "k" (.unwritable "no")))
  obtain ⟨-, -, hcontent, -⟩ := hlater (.ask top (.set "t" "k" (.unwritable "no")))
  refine ⟨(hkeys hvalid nofun).1.mpr ⟨rfl, ?_⟩, ?_, ?_⟩
  · exact ⟨.close ⟨top.encoder, ⟨terminated "a"⟩⟩, by simp [before], rfl⟩
  · exact hname "" rfl fun h => h.1 rfl
  · exact hcontent hvalid "no" rfl

end Runs

end TableVault
