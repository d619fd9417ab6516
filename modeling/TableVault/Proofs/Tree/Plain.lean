import TableVault.Proofs.Crypto.Feedback
import TableVault.Proofs.Tree.Refinement

namespace TableVault

open Storage Record

/-!
# Trees in plain

What a vault would hold if nothing were encrypted.

* `Encoder.reveal` — the plain record of the same payload. It is as long, and every encoder
  reads it as the record is read by its own;
* `Tree.revealed` — the tree with its records in plain, with what each change does to it;
* `Request.plain` and `Call.plain` — requests and calls that encrypt nothing;
* `Call.onTree_plain` — a call does to the revealed tree what its plain call does, which
  depends on no key.
-/

/-! ### Records -/

namespace Record.Encoder

variable {e : Encoder}

/-- The plain record of the same payload. What is no record of a payload is left as it is. -/
def reveal (e : Encoder) (record : Bytes) : Bytes :=
  match split record with
  | .ok (some (flag, payload)) => frame .plain (e.payload flag payload)
  | _ => record

/-- A plain payload is stored as it is. -/
theorem payload_plain (e : Encoder) (stored : Bytes) : e.payload .plain stored = stored := rfl

/-- A payload is as long as what is stored for it. -/
theorem length_payload (e : Encoder) (flag : Flag) (stored : Bytes) :
    (e.payload flag stored).length = stored.length := by
  cases flag with
  | plain => rfl
  | encrypted => exact Crypto.ValueCipher.length_decrypt e.cipher stored

/-- A record is as long as its plain record. -/
theorem length_reveal (e : Encoder) (record : Bytes) : (e.reveal record).length = record.length := by
  cases record with
  | nil => rfl
  | cons b stored =>
    rw [reveal, split]
    cases Flag.ofByte b with
    | ok flag => exact congrArg (· + 1) (e.length_payload flag stored)
    | error fault => rfl

/-- A plain record is read by every encoder as the record is by its own. -/
theorem decode_reveal (e e₀ : Encoder) (shape : Cbor.Shape) (record : Bytes) :
    e₀.decode shape (e.reveal record) = e.decode shape record := by
  unfold reveal decode
  cases hsplit : split record with
  | error fault => simp only [hsplit, bind, Except.bind]
  | ok parts =>
    cases parts with
    | none => simp only [hsplit, bind, Except.bind]
    | some parts => simp only [split_frame, payload_plain, bind, Except.bind]

/-- The plain record of what has been encoded is what is encoded without encryption. -/
theorem map_reveal_encode (e e₀ : Encoder) (content : Content) (encrypt : Bool) :
    (e.encode content encrypt).map e.reveal = e₀.encode content false := by
  cases content with
  | unwritable reason => rfl
  | value v =>
    cases encrypt with
    | false => rfl
    | true =>
      show Except.ok (e.reveal (frame .encrypted (e.cipher.encrypt v.encode))) = _
      rw [reveal, split_frame]
      exact congrArg (fun p => Except.ok (frame .plain p)) (e.cipher.decrypt_encrypt v.encode)

/-- The plain records. -/
def revealAll (e : Encoder) (records : Records) : Records :=
  records.map fun _ record => e.reveal record

/-- At a key is the plain record. -/
theorem getElem?_revealAll (records : Records) (key : String) :
    (e.revealAll records)[key]? = records[key]?.map e.reveal :=
  Std.ExtTreeMap.getElem?_map

end Record.Encoder

/-! ### Trees -/

namespace Tree

variable (e : Encoder) (t : Tree)

/-- The tree with its records in plain. -/
def revealed : Tree :=
  t.map fun _ records => e.revealAll records

/-- At a spot are the records in plain. -/
theorem getElem?_revealed (spot : Spot) : (t.revealed e)[spot]? = t[spot]?.map e.revealAll :=
  Std.ExtTreeMap.getElem?_map

/-- A table has its records in plain. -/
theorem recordsAt_revealed (spot : Spot) :
    (t.revealed e).recordsAt spot = e.revealAll (t.recordsAt spot) := by
  rw [recordsAt_eq, recordsAt_eq, getElem?_revealed]
  cases t[spot]? with
  | none => exact (Std.ExtTreeMap.map_eq_empty_iff.mpr rfl).symm
  | some records => rfl

/-- At a key of a table is the plain record. -/
theorem find_revealed (spot : Spot) (key : String) :
    ((t.revealed e).recordsAt spot)[key]? = (t.recordsAt spot)[key]?.map e.reveal := by
  rw [recordsAt_revealed, Encoder.getElem?_revealAll]

/-- Putting a record puts its plain record. -/
theorem revealed_put (spot : Spot) (key : String) (record : Bytes) :
    (t.put spot key record).revealed e = (t.revealed e).put spot key (e.reveal record) := by
  refine Std.ExtTreeMap.ext_getElem? fun other => ?_
  rw [getElem?_revealed, getElem?_put, getElem?_put, recordsAt_revealed, getElem?_revealed]
  split
  · refine congrArg some (Std.ExtTreeMap.ext_getElem? fun k => ?_)
    rw [Encoder.getElem?_revealAll, Std.ExtTreeMap.getElem?_insert, Std.ExtTreeMap.getElem?_insert,
      Encoder.getElem?_revealAll]
    split <;> rfl
  · rfl

/-- Removing a record removes its plain record. -/
theorem revealed_remove (spot : Spot) (key : String) :
    (t.remove spot key).revealed e = (t.revealed e).remove spot key := by
  refine Std.ExtTreeMap.ext_getElem? fun other => ?_
  rw [getElem?_revealed, getElem?_remove, getElem?_remove, getElem?_revealed, getElem?_revealed]
  split
  · cases t[spot]? with
    | none => rfl
    | some records =>
      refine congrArg some (Std.ExtTreeMap.ext_getElem? fun k => ?_)
      rw [Encoder.getElem?_revealAll, Std.ExtTreeMap.getElem?_erase,
        Std.ExtTreeMap.getElem?_erase, Encoder.getElem?_revealAll]
      split <;> rfl
  · rfl

/-- Dropping a table drops it in plain. -/
theorem revealed_drop (base : Spot) : (t.drop base).revealed e = (t.revealed e).drop base := by
  refine Std.ExtTreeMap.ext_getElem? fun other => ?_
  rw [getElem?_revealed, getElem?_drop, getElem?_drop, getElem?_revealed]
  split <;> rfl

/-- The same tables are listed. -/
theorem tables_revealed (path : List String) : (t.revealed e).tables path = t.tables path := by
  rw [tables, revealed, Std.ExtTreeMap.keys_map, tables]

/-- The same namespaces are listed. -/
theorem namespaces_revealed (path : List String) (limitDepth : Bool) :
    (t.revealed e).namespaces path limitDepth = t.namespaces path limitDepth := by
  have hbelow : (t.revealed e).below path = t.below path := by
    rw [below, revealed, Std.ExtTreeMap.keys_map, below]
  rw [namespaces, hbelow, namespaces]

end Tree

/-! ### Calls -/

/-- The request that encrypts nothing. -/
def Request.plain : Request → Request
  | .cryptSet table key content => .set table key content
  | request => request

/-- The request to a view that encrypts nothing. -/
def ViewRequest.plain : ViewRequest → ViewRequest
  | .cryptSet key content => .set key content
  | request => request

/-- The call that encrypts nothing. -/
def Call.plain : Call → Call
  | .onStore moves request => .onStore moves request.plain
  | .onView moves table request => .onView moves table request.plain

/-- The answer with a stored record in plain. -/
def Answer.revealed (e : Encoder) : Answer → Answer
  | .record found => .record (found.map e.reveal)
  | answer => answer

/-- What is answered and left, in plain. -/
def revealedEffect (e : Encoder) (effect : Except VaultError Answer × Tree) :
    Except VaultError Answer × Tree :=
  (effect.1.map (Answer.revealed e), effect.2.revealed e)

section Plain

variable {e : Encoder} {t : Tree}

/-- A check that succeeds is followed by the same in plain, if what goes on is. -/
theorem revealedEffect_guarded {α : Type} {check : Except VaultError α}
    {f f' : α → Except VaultError Answer × Tree} (h : ∀ a, revealedEffect e (f a) = f' a) :
    revealedEffect e (guarded t check f) = guarded (t.revealed e) check f' := by
  cases check with
  | ok a => exact h a
  | error fault => rfl

/-- Storing content in a tree is storing it in plain in the revealed tree. -/
theorem Tree.revealed_store (e₀ : Encoder) (spot : Spot) (key : String) (content : Content)
    (encrypt : Bool) :
    revealedEffect e (t.store e spot key content encrypt) =
      (t.revealed e).store e₀ spot key content false := by
  rw [Tree.store, Tree.store, ← Encoder.map_reveal_encode e e₀ content encrypt]
  cases e.encode content encrypt with
  | error fault => rfl
  | ok record =>
    show (Except.ok Answer.done, (t.put spot key record).revealed e) = _
    rw [Tree.revealed_put]
    rfl

/-- Content is read alike from the revealed tree. -/
theorem Tree.content_revealed (e₀ : Encoder) (spot : Spot) (key : String) (shape : Cbor.Shape) :
    (t.revealed e).content e₀ spot key shape = t.content e spot key shape := by
  rw [Tree.content, Tree.find_revealed, Tree.content]
  cases (t.recordsAt spot)[key]? with
  | none => rfl
  | some record => exact congrArg (·.mapError VaultError.codec) (e.decode_reveal e₀ shape record)

/-- A request does to the revealed tree what its plain request does, with any encoder. -/
theorem Request.onTree_plain (e₀ : Encoder) (path : List String) (request : Request) :
    revealedEffect e (request.onTree e path t) = request.plain.onTree e₀ path (t.revealed e) := by
  cases request with
  | set table key content => exact revealedEffect_guarded fun _ => Tree.revealed_store ..
  | cryptSet table key content => exact revealedEffect_guarded fun _ => Tree.revealed_store ..
  | unset table key =>
    refine revealedEffect_guarded fun _ => ?_
    rw [revealedEffect, Tree.revealed_remove]
    rfl
  | drop table =>
    refine revealedEffect_guarded fun _ => ?_
    rw [revealedEffect, Tree.revealed_drop]
    rfl
  | get table key shape =>
    refine revealedEffect_guarded fun _ => ?_
    rw [Tree.content_revealed]
    cases t.content e (path, table) key shape <;> rfl
  | rawGet table key =>
    refine revealedEffect_guarded fun _ => ?_
    rw [Tree.find_revealed]
    rfl
  | contains table key =>
    refine revealedEffect_guarded fun _ => ?_
    rw [Tree.recordsAt_revealed, Encoder.revealAll, Std.ExtTreeMap.contains_map]
    rfl
  | keys table =>
    refine revealedEffect_guarded fun _ => ?_
    rw [Tree.recordsAt_revealed, Encoder.revealAll, Std.ExtTreeMap.keys_map]
    rfl
  | countKeys table =>
    refine revealedEffect_guarded fun _ => ?_
    rw [Tree.recordsAt_revealed, Encoder.revealAll, Std.ExtTreeMap.size_map]
    rfl
  | tables =>
    show _ = (Except.ok (Answer.names ((t.revealed e).tables path)), t.revealed e)
    rw [Tree.tables_revealed]
    rfl
  | namespaces limitDepth =>
    show _ = (Except.ok (Answer.names ((t.revealed e).namespaces path limitDepth)), t.revealed e)
    rw [Tree.namespaces_revealed]
    rfl

/-- A view asks its store for the plain request. -/
theorem ViewRequest.onTable_plain (table : String) (request : ViewRequest) :
    request.plain.onTable table = (request.onTable table).plain := by
  cases request <;> rfl

/-- The name of a view is checked once more by the store that it asks. -/
theorem Call.onTree_onView (moves : List Move) (table : String) (request : ViewRequest) :
    Call.onTree e t (.onView moves table request) =
      Call.onTree e t (.onStore moves (request.onTable table)) := by
  refine congrArg (guarded t (pathAfter [] moves)) (funext fun path => ?_)
  cases request <;> dsimp only [ViewRequest.onTable, Request.onTree] <;>
    cases validateName table <;> rfl

/-- A call does to the revealed tree what its plain call does, with any encoder. -/
theorem Call.onTree_plain (e₀ : Encoder) (call : Call) :
    revealedEffect e (call.onTree e t) = call.plain.onTree e₀ (t.revealed e) := by
  have hstore : ∀ moves request, revealedEffect e (Call.onTree e t (.onStore moves request)) =
      Call.onTree e₀ (t.revealed e) (.onStore moves request.plain) :=
    fun moves request => revealedEffect_guarded fun path => request.onTree_plain e₀ path
  cases call with
  | onStore moves request => exact hstore moves request
  | onView moves table request =>
    rw [Call.onTree_onView, hstore, ← ViewRequest.onTable_plain, ← Call.onTree_onView]
    rfl

end Plain

end TableVault
