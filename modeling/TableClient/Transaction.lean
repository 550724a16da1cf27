import TableClient.Options.Item

/-! Transactions, calls that take effect as a whole.

The parts of a transaction are made from the same options as the calls that stand alone,
and then narrowed to what an entry of their kind takes. -/
namespace TableClient

/-- The kinds of entries of a write. -/
inductive TransactKind where
  | check
  | put
  | delete
  | update
deriving DecidableEq

namespace TransactKind

/-- The name of a kind. -/
def name : TransactKind → String
  | .check => "Check"
  | .put => "Put"
  | .delete => "Delete"
  | .update => "Update"

/-- The kind of a name. -/
def ofName? (name : String) : Option TransactKind :=
  [.check, .put, .delete, .update].find? fun kind => kind.name = name

/-- What every entry of a write may carry. -/
def sharedFields : List Parameter := [.table, .condition, .names, .values, .returnValues]

/-- What entries of one kind may carry besides. -/
def ownFields : TransactKind → List Parameter
  | .check | .delete => [.key]
  | .put => [.item]
  | .update => [.key, .update]

/-- What an entry may carry. -/
def allowedFields (kind : TransactKind) : List Parameter := sharedFields ++ kind.ownFields

end TransactKind

/-- The most entries of a transaction. -/
def mostTransactEntries : Nat := 25

/-- Checks that a transaction has entries, and not too many. -/
def validateTransactSize (size : Nat) : Outcome Unit :=
  if size = 0 then .error (.rejected .noTransactions)
  else if mostTransactEntries < size then
    .error (.rejected (.tooManyTransactions mostTransactEntries))
  else .ok ()

/-! ### Writes -/

/-- One part of a write. -/
structure TransactAction where
  kind : TransactKind
  parameters : Parameters
deriving DecidableEq

namespace TransactAction

/-- A part with no more than its kind may carry. -/
def narrowed (kind : TransactKind) (p : Parameters) : TransactAction :=
  ⟨kind, p.retain kind.allowedFields⟩

/-- Asserts a condition on an item that is not written. -/
def check (table : String) (key : Key) (condition : Condition) : Outcome TransactAction := do
  key.validate Key.mostAttributes
  let p : Parameters := { table, key }
  return narrowed .check (← p.assemble { conditions := [condition] })

/-- Writes an item. -/
def put (table : String) (item : Item) (o : PutOptions) : Outcome TransactAction := do
  return narrowed .put (← o.parameters table item)

/-- Changes an item. -/
def update (table : String) (key : Key) (o : UpdateOptions) : Outcome TransactAction := do
  return narrowed .update (← o.parameters table key)

/-- Deletes an item. -/
def delete (table : String) (key : Key) (o : DeleteOptions) : Outcome TransactAction := do
  return narrowed .delete (← o.parameters table key)

/-- What comes back of an item whose condition does not hold. Only the whole item can, so a
mode that asks for less comes to nothing. -/
def onFailure : ReturnValue → FailureReturn
  | .allOld | .allNew => .allOld
  | .none | .updatedOld | .updatedNew => .none

/-- The entry of a part. -/
def entry (a : TransactAction) : Outcome TransactWrite.Entry :=
  let p := a.parameters
  let onFailure := p.returnValues.map TransactAction.onFailure
  match a.kind with
  | .check =>
    match p.condition with
    | none => .error (.rejected .checkWithoutCondition)
    | some condition => .ok { check := some { p with condition, onFailure } }
  | .put => .ok { put := some { p with onFailure } }
  | .delete => .ok { delete := some { p with onFailure } }
  | .update =>
    match p.update with
    | none => .error (.rejected .updateWithoutAction)
    | some update => .ok { update := some { p with update, onFailure } }

end TransactAction

/-- Settings of a write of several items. -/
structure TransactWriteOptions where
  /-- Names the call, so that the store takes repetitions of it for one. -/
  token : Option String := none
  reportCapacity : Option CapacityReport := none
  reportMetrics : Option MetricsReport := none
deriving DecidableEq

/-- The request of a write. A call that has no token gets a fresh one, so that all attempts
of it have the same. -/
def TransactWriteOptions.compose (o : TransactWriteOptions) (actions : List TransactAction)
    (fresh : String) : Outcome TransactWrite.Request := do
  validateTransactSize actions.length
  let entries ← actions.mapM TransactAction.entry
  return { entries
           token := some (o.token.getD fresh)
           reportCapacity := o.reportCapacity
           reportMetrics := o.reportMetrics }

/-! ### Reads -/

/-- One part of a read. -/
structure TransactRead where
  parameters : Parameters
deriving DecidableEq

namespace TransactRead

/-- What an entry of a read may carry. -/
def allowedFields : List Parameter := [.table, .key, .projection, .names]

/-- Reads an item. -/
def get (table : String) (key : Key) (o : GetOptions) : Outcome TransactRead := do
  return ⟨(← o.parameters table key).retain allowedFields⟩

/-- The entry of a part. -/
def entry (r : TransactRead) : TransactGet.Entry :=
  let p := r.parameters
  { get := { p with } }

/-- The request of a read. -/
def compose (reads : List TransactRead) (reportCapacity : Option CapacityReport) :
    Outcome TransactGet.Request := do
  validateTransactSize reads.length
  return { entries := reads.map entry, reportCapacity }

end TransactRead

end TableClient
