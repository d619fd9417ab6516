import TableVault.Error
import TableVault.Storage.Backend

namespace TableVault

/-!
# Actions

* `Action` — computations on a backend that may fail with an error of the vault;
* `Action.ofStorage`, `Action.ofExcept` and `Action.ofCodec` — backend operations and
  pure computations as actions.
-/

/-- A computation on a state of type `σ` that may fail. A failure leaves the state as it
    was at that moment. -/
abbrev Action (σ : Type) := EStateM VaultError σ

namespace Action

variable {σ α : Type}

/-- A backend operation as an action. -/
def ofStorage (x : Storage.StorageAction σ α) : Action σ α := fun s =>
  match x s with
  | .ok a s => .ok a s
  | .error e s => .error (.ofStorage e) s

/-- A computation that does not touch the state. -/
def ofExcept (x : Except VaultError α) : Action σ α := fun s =>
  match x with
  | .ok a => .ok a s
  | .error e => .error e s

/-- Writing or reading a record as an action. -/
def ofCodec (x : Except CodecError α) : Action σ α :=
  ofExcept (x.mapError .codec)

end Action

end TableVault
