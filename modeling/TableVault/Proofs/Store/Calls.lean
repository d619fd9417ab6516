import Mathlib
import TableVault.Proofs.Storage.Lawful
import TableVault.View

namespace TableVault

open Storage

/-!
# Calls on an open store

What a client does with an open store is a list of calls. Every call reaches a handle
from the one at the top and makes one request through it.

* `Move` and `Store.follow` — the ways from a handle to another one, and handles at the
  end of several of them;
* `Request`, `ViewRequest` and `Call` — what is asked of a store, of a view of a table,
  and of a handle reached from the top;
* `Request.effect` — what a request answers and leaves, as a function of the tables;
* `Request.runs` and `Call.runs` — on every lawful backend requests and calls have that
  effect, and a process that dies meanwhile leaves the tables as they were.
-/

/-! ### Handles -/

/-- A way from a handle to another one on the same vault. -/
inductive Move where
  | clone
  | sub (name : String)
  | bucket (name : String)
  /-- To the view of a table, and back to its store. -/
  | table (name : String)

/-- The handle at the end of a way. -/
def Store.move (s : Store) : Move → Except VaultError Store
  | .clone => .ok s
  | .sub name => s.sub name
  | .bucket name => s.bucket name
  | .table name => do return (← s.table name).store

/-- The handle at the end of several ways, one after another. -/
def Store.follow (s : Store) : List Move → Except VaultError Store
  | [] => .ok s
  | m :: rest => do (← s.move m).follow rest

/-! ### Requests -/

/-- What is asked of a store. -/
inductive Request where
  | set (table key : String) (content : Content)
  | cryptSet (table key : String) (content : Content)
  | unset (table key : String)
  | drop (table : String)
  | get (table key : String) (shape : Cbor.Shape)
  | rawGet (table key : String)
  | contains (table key : String)
  | keys (table : String)
  | countKeys (table : String)
  | tables
  | namespaces (limitDepth : Bool)

/-- What is asked of a view of a table. -/
inductive ViewRequest where
  | set (key : String) (content : Content)
  | cryptSet (key : String) (content : Content)
  | unset (key : String)
  | drop
  | get (key : String) (shape : Cbor.Shape)
  | contains (key : String)
  | keys
  | countKeys

/-- What a request is answered with. -/
inductive Answer where
  | done
  | content (shape : Cbor.Shape) (value : Option shape.Carrier)
  | record (record : Option Bytes)
  | truth (b : Bool)
  | names (names : List String)
  | count (n : Nat)

/-- A request to a handle that is reached from the one at the top. -/
inductive Call where
  | onStore (moves : List Move) (request : Request)
  | onView (moves : List Move) (table : String) (request : ViewRequest)

variable {σ : Type}

section Run

variable [Backend σ]

/-- Makes a request to a store. -/
def Request.run (s : Store) : Request → Action σ Answer
  | .set table key content => do s.set table key content; return .done
  | .cryptSet table key content => do s.cryptSet table key content; return .done
  | .unset table key => do s.unset table key; return .done
  | .drop table => do s.drop table; return .done
  | .get table key shape => return .content shape (← s.get table key shape)
  | .rawGet table key => return .record (← s.rawGet table key)
  | .contains table key => return .truth (← s.contains table key)
  | .keys table => return .names (← s.keys table)
  | .countKeys table => return .count (← s.countKeys table)
  | .tables => return .names (← s.tables)
  | .namespaces limitDepth => return .names (← s.namespaces limitDepth)

/-- Makes a request to a view of a table. -/
def ViewRequest.run (v : View) : ViewRequest → Action σ Answer
  | .set key content => do v.set key content; return .done
  | .cryptSet key content => do v.cryptSet key content; return .done
  | .unset key => do v.unset key; return .done
  | .drop => do v.drop; return .done
  | .get key shape => return .content shape (← v.get key shape)
  | .contains key => return .truth (← v.contains key)
  | .keys => return .names (← v.keys)
  | .countKeys => return .count (← v.countKeys)

/-- Makes a call: reaches a handle from the one at the top, and makes the request. -/
def Call.run (top : Store) : Call → Action σ Answer
  | .onStore moves request => do
    let s ← Action.ofExcept (top.follow moves)
    request.run s
  | .onView moves table request => do
    let s ← Action.ofExcept (top.follow moves)
    let v ← Action.ofExcept (s.table table)
    request.run v

end Run

/-- The request to a store that a request to the view of a table amounts to. -/
def ViewRequest.onTable (table : String) : ViewRequest → Request
  | .set key content => .set table key content
  | .cryptSet key content => .cryptSet table key content
  | .unset key => .unset table key
  | .drop => .drop table
  | .get key shape => .get table key shape
  | .contains key => .contains table key
  | .keys => .keys table
  | .countKeys => .countKeys table

/-- A view makes its requests to its store. -/
theorem ViewRequest.run_eq [Backend σ] (v : View) (request : ViewRequest) :
    request.run (σ := σ) v = (request.onTable v.name).run v.store := by
  cases request <;> rfl

/-! ### Effects -/

/-- What a program answers and leaves that goes on from a state `t` only if a check
    succeeds. -/
def guarded {τ α β : Type} (t : τ) (check : Except VaultError α)
    (f : α → Except VaultError β × τ) : Except VaultError β × τ :=
  match check with
  | .ok a => f a
  | .error e => (.error e, t)

namespace Store

variable (s : Store) (ts : Tables)

/-- What storing content answers and leaves. -/
def putEffect (table key : String) (content : Content) (encrypt : Bool) :
    Except VaultError Unit × Tables :=
  guarded ts (s.position.qualify table) fun name =>
    guarded ts ((s.encoder.encode content encrypt).mapError .codec) fun record =>
      (.ok (), ts.put name key record)

/-- The content at a key of a table with a given backend name. -/
def contentAt (name key : String) (shape : Cbor.Shape) : Except VaultError (Option shape.Carrier) :=
  match ts.find? name key with
  | some record => (s.encoder.decode shape record).mapError .codec
  | none => .ok none

/-- What an operation answers that looks at a table, and what it leaves. -/
def lookEffect {α : Type} (table : String) (look : String → Except VaultError α) :
    Except VaultError α × Tables :=
  guarded ts (s.position.qualify table) fun name => (look name, ts)

/-- What an operation answers that changes a table, and what it leaves. -/
def changeEffect (table : String) (change : String → Tables) : Except VaultError Unit × Tables :=
  guarded ts (s.position.qualify table) fun name => (.ok (), change name)

end Store

/-- An effect with another form of the answer. -/
def mapAnswer {α : Type} (g : α → Answer) (effect : Except VaultError α × Tables) :
    Except VaultError Answer × Tables :=
  (effect.1.map g, effect.2)

/-- Another form of the answer is given after the check. -/
theorem mapAnswer_guarded {α β : Type} (g : β → Answer) (ts : Tables)
    (check : Except VaultError α) (f : α → Except VaultError β × Tables) :
    mapAnswer g (guarded ts check f) = guarded ts check fun a => mapAnswer g (f a) := by
  cases check <;> rfl

/-- What a request answers and leaves, as a function of the tables. -/
def Request.effect (s : Store) (ts : Tables) : Request → Except VaultError Answer × Tables
  | .set table key content => mapAnswer (fun _ => .done) (s.putEffect ts table key content false)
  | .cryptSet table key content => mapAnswer (fun _ => .done) (s.putEffect ts table key content true)
  | .unset table key =>
    mapAnswer (fun _ => .done) (s.changeEffect ts table fun name => ts.remove name key)
  | .drop table => mapAnswer (fun _ => .done) (s.changeEffect ts table ts.dropSubtree)
  | .get table key shape =>
    mapAnswer (.content shape) (s.lookEffect ts table fun name => s.contentAt ts name key shape)
  | .rawGet table key => mapAnswer .record (s.lookEffect ts table fun name => .ok (ts.find? name key))
  | .contains table key =>
    mapAnswer .truth (s.lookEffect ts table fun name => .ok (ts.find? name key).isSome)
  | .keys table => mapAnswer .names (s.lookEffect ts table fun name => .ok (ts.recordsOf name).keys)
  | .countKeys table =>
    mapAnswer .count (s.lookEffect ts table fun name => .ok (ts.recordsOf name).size)
  | .tables => (.ok (.names (s.position.childTables ts.names)), ts)
  | .namespaces limitDepth => (.ok (.names (s.position.subNamespaces limitDepth ts.names)), ts)

/-- What a call answers and leaves, as a function of the tables. -/
def Call.effect (top : Store) (ts : Tables) : Call → Except VaultError Answer × Tables
  | .onStore moves request => guarded ts (top.follow moves) fun s => request.effect s ts
  | .onView moves table request =>
    guarded ts (top.follow moves) fun s =>
      guarded ts (s.table table) fun v => (request.onTable v.name).effect v.store ts

/-! ### Calls on lawful backends -/

section Lawful

variable [Backend σ] [LawfulBackend σ] {s : Store} {ts : Tables} {α β : Type}

/-- A program that goes on only if a check succeeds. -/
theorem guarded_runs {check : Except VaultError α} {x : α → Action σ β}
    {f : α → Except VaultError β × Tables} {cut : Set Tables}
    (h : ∀ a, Runs (x a) ts (f a).1 (f a).2 cut) :
    Runs (do x (← Action.ofExcept check)) ts (guarded ts check f).1 (guarded ts check f).2 cut := by
  have hcheck := Runs.ofExcept (σ := σ) check ts
  cases check with
  | ok a => exact hcheck.bind_of_look (h a)
  | error e => exact hcheck.bind_error.mono (Set.empty_subset cut)

namespace Store

/-- Storing content. -/
theorem put_runs (table key : String) (content : Content) (encrypt : Bool) :
    Runs (σ := σ) (s.put table key content encrypt) ts (s.putEffect ts table key content encrypt).1
      (s.putEffect ts table key content encrypt).2 {ts} :=
  guarded_runs fun name => guarded_runs fun record =>
    (LawfulBackend.set_runs ts name key record).ofStorage

/-- Changing a table. -/
theorem change_runs (table : String) {x : String → StorageAction σ Unit} {change : String → Tables}
    (h : ∀ name, Runs (x name) ts (.ok ()) (change name) {ts}) :
    Runs (s.onTable table x) ts (s.changeEffect ts table change).1
      (s.changeEffect ts table change).2 {ts} :=
  guarded_runs fun name => (h name).ofStorage

/-- Looking at a table. -/
theorem look_runs (table : String) {x : String → StorageAction σ α} {look : String → α}
    (h : ∀ name, Runs (x name) ts (.ok (look name)) ts ∅) :
    Runs (s.onTable table x) ts (s.lookEffect ts table fun name => .ok (look name)).1
      (s.lookEffect ts table fun name => .ok (look name)).2 {ts} :=
  guarded_runs fun name => (h name).ofStorage.mono (Set.empty_subset _)

/-- Looking at a table, and going on with what is found there. -/
theorem look_bind_runs (table : String) {x : String → StorageAction σ α} (look : String → α)
    (h : ∀ name, Runs (x name) ts (.ok (look name)) ts ∅) {k : α → Action σ β}
    {r : α → Except VaultError β} (hk : ∀ a, Runs (k a) ts (r a) ts ∅) :
    Runs (do k (← s.onTable table x)) ts (s.lookEffect ts table fun name => r (look name)).1
      (s.lookEffect ts table fun name => r (look name)).2 {ts} := by
  have hx : Runs (s.onTable table x) ts (s.lookEffect ts table fun name => .ok (look name)).1
      (s.lookEffect ts table fun name => .ok (look name)).2 ∅ :=
    guarded_runs fun name => (h name).ofStorage
  refine Runs.mono ?_ (Set.empty_subset _)
  -- The look is done with whatever was found, so the two ends of the check are taken apart.
  unfold lookEffect onTable at hx
  unfold lookEffect onTable
  cases hq : s.position.qualify table with
  | ok name =>
    rw [hq] at hx
    exact hx.bind_of_look (hk (look name))
  | error e =>
    rw [hq] at hx
    exact hx.bind_error

/-- Reading content. -/
theorem get_runs (table key : String) (shape : Cbor.Shape) :
    Runs (σ := σ) (s.get table key shape) ts
      (s.lookEffect ts table fun name => s.contentAt ts name key shape).1
      (s.lookEffect ts table fun name => s.contentAt ts name key shape).2 {ts} := by
  refine look_bind_runs table (fun name => ts.find? name key)
    (fun name => LawfulBackend.get_runs ts name key)
    (r := fun found => match found with
      | some record => (s.encoder.decode shape record).mapError .codec
      | none => .ok none) fun found => ?_
  cases found with
  | some record => exact Runs.ofExcept _ ts
  | none => exact Runs.pure none ts

/-- Looking for a record. -/
theorem contains_runs (table key : String) :
    Runs (σ := σ) (s.contains table key) ts
      (s.lookEffect ts table fun name => .ok (ts.find? name key).isSome).1
      (s.lookEffect ts table fun name => .ok (ts.find? name key).isSome).2 {ts} :=
  look_bind_runs table (fun name => ts.find? name key)
    (fun name => LawfulBackend.get_runs ts name key) (r := fun found => .ok found.isSome)
    fun found => Runs.pure found.isSome ts

/-- Listing what there is at or below a place. -/
theorem list_runs (g : List String → List String) :
    Runs (σ := σ) (do return g (← Action.ofStorage Backend.tables)) ts (.ok (g ts.names)) ts {ts} :=
  ((LawfulBackend.tables_runs ts).ofStorage.map g).mono (Set.empty_subset _)

end Store

open LawfulBackend in
/-- On every lawful backend a request has its effect. -/
theorem Request.runs (s : Store) (ts : Tables) (request : Request) :
    Runs (σ := σ) (request.run s) ts (request.effect s ts).1 (request.effect s ts).2 {ts} := by
  cases request with
  | set table key content => exact (Store.put_runs table key content false).map _
  | cryptSet table key content => exact (Store.put_runs table key content true).map _
  | unset table key => exact (Store.change_runs table fun name => unset_runs ts name key).map _
  | drop table => exact (Store.change_runs table (dropTable_runs ts)).map _
  | get table key shape => exact (Store.get_runs table key shape).map _
  | rawGet table key => exact (Store.look_runs table fun name => get_runs ts name key).map _
  | contains table key => exact (Store.contains_runs table key).map _
  | keys table => exact (Store.look_runs table (keys_runs ts)).map _
  | countKeys table => exact (Store.look_runs table (countKeys_runs ts)).map _
  | tables => exact (Store.list_runs s.position.childTables).map _
  | namespaces limitDepth => exact (Store.list_runs (s.position.subNamespaces limitDepth)).map _

/-- On every lawful backend a call has its effect. -/
theorem Call.runs (top : Store) (ts : Tables) (call : Call) :
    Runs (σ := σ) (call.run top) ts (call.effect top ts).1 (call.effect top ts).2 {ts} := by
  cases call with
  | onStore moves request => exact guarded_runs fun s => Request.runs s ts request
  | onView moves table request =>
    refine guarded_runs fun s => guarded_runs fun v => ?_
    rw [ViewRequest.run_eq]
    exact Request.runs v.store ts (request.onTable v.name)

end Lawful

end TableVault
