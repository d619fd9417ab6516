import TableVault.Proofs.Tree.Refinement

namespace TableVault

open Storage Record

/-!
# What calls write

* `WrittenBy` — every record of some tables was there before, or has been encoded by a
  given encoder;
* `Call.writtenBy` — calls write nothing else, and `Call.effect_system` — they leave the
  system table alone.
-/

/-- Every record was there before or has been encoded by a given encoder. -/
def WrittenBy (e : Encoder) (ts us : Tables) : Prop :=
  ∀ table key record, us.find? table key = some record →
    ts.find? table key = some record ∨ ∃ content encrypt, e.encode content encrypt = .ok record

variable {e : Encoder} {ts : Tables}

/-- Looking writes nothing. -/
theorem WrittenBy.refl (e : Encoder) (ts : Tables) : WrittenBy e ts ts :=
  fun _ _ _ h => .inl h

/-- What goes on after a check writes no more than what goes on. -/
theorem WrittenBy.guarded {α β : Type} (check : Except VaultError α)
    {f : α → Except VaultError β × Tables} (hf : ∀ a, check = .ok a → WrittenBy e ts (f a).2) :
    WrittenBy e ts (guarded ts check f).2 := by
  cases check with
  | ok a => exact hf a rfl
  | error fault => exact .refl e ts

/-- Putting writes the record that is put. -/
theorem WrittenBy.put {content : Content} {encrypt : Bool} {record : Bytes}
    (hencode : e.encode content encrypt = .ok record) (ts : Tables) (table key : String) :
    WrittenBy e ts (ts.put table key record) := by
  intro other otherKey found h
  rw [Tables.find?_put] at h
  split at h
  · exact .inr ⟨content, encrypt, Option.some.inj h ▸ hencode⟩
  · exact .inl h

/-- Removing writes nothing. -/
theorem WrittenBy.remove (e : Encoder) (ts : Tables) (table key : String) :
    WrittenBy e ts (ts.remove table key) := by
  intro other otherKey found h
  rw [Tables.find?_remove] at h
  split at h
  · cases h
  · exact .inl h

/-- Dropping writes nothing. -/
theorem WrittenBy.dropSubtree (e : Encoder) (ts : Tables) (base : String) :
    WrittenBy e ts (ts.dropSubtree base) := by
  intro other otherKey found h
  rw [Tables.find?_dropSubtree] at h
  split at h
  · cases h
  · exact .inl h

/-- A request writes what it has encoded. -/
theorem Request.writtenBy (s : Store) (ts : Tables) (request : Request) :
    WrittenBy s.encoder ts (request.effect s ts).2 := by
  have hput : ∀ table key content encrypt,
      WrittenBy s.encoder ts (s.putEffect ts table key content encrypt).2 := by
    intro table key content encrypt
    refine WrittenBy.guarded _ fun name _ => ?_
    cases hencode : s.encoder.encode content encrypt with
    | error fault => exact .refl _ ts
    | ok record => exact .put hencode ts name key
  have hlook : ∀ {α : Type} (table : String) (look : String → Except VaultError α),
      WrittenBy s.encoder ts (s.lookEffect ts table look).2 :=
    fun _ _ => WrittenBy.guarded _ fun _ _ => .refl _ ts
  cases request with
  | set table key content => exact hput table key content false
  | cryptSet table key content => exact hput table key content true
  | unset table key => exact WrittenBy.guarded _ fun name _ => .remove _ ts name key
  | drop table => exact WrittenBy.guarded _ fun name _ => .dropSubtree _ ts name
  | get table key shape => exact hlook table _
  | rawGet table key => exact hlook (α := Option Bytes) table _
  | contains table key => exact hlook (α := Bool) table _
  | keys table => exact hlook (α := List String) table _
  | countKeys table => exact hlook (α := Nat) table _
  | tables => exact .refl _ ts
  | namespaces limitDepth => exact .refl _ ts

/-- A handle that is reached from the top has the encoder of the top. -/
theorem encoder_of_follow {moves : List Move} {s : Store}
    (h : Store.follow ⟨e, .root⟩ moves = .ok s) : s.encoder = e := by
  obtain ⟨final, -, rfl⟩ := ofPath_of_follow [] h
  rfl

/-- **What calls write.** A call writes nothing but what the encoder of the vault has
    encoded. -/
theorem Call.writtenBy (e : Encoder) (ts : Tables) (call : Call) :
    WrittenBy e ts (call.effect ⟨e, .root⟩ ts).2 := by
  cases call with
  | onStore moves request =>
    refine WrittenBy.guarded _ fun s hs => ?_
    rw [← encoder_of_follow hs]
    exact Request.writtenBy s ts request
  | onView moves table request =>
    refine WrittenBy.guarded _ fun s hs => WrittenBy.guarded _ fun v hv => ?_
    -- A view is a table of the handle that it was made from.
    have hstore : v.store = s := by
      obtain ⟨name, -, hv⟩ := ok_of_bind hv
      rw [← Except.ok.inj hv]
    rw [← encoder_of_follow hs, ← hstore]
    exact Request.writtenBy v.store ts (request.onTable v.name)

/-- Calls leave the system table alone. -/
theorem Call.effect_system (e : Encoder) (ts : Tables) (call : Call) :
    (call.effect ⟨e, .root⟩ ts).2[systemTable]? = ts[systemTable]? :=
  (Call.mirrors e ts call).system

end TableVault
