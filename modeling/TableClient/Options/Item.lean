import TableClient.Assembly
import TableClient.Key
import TableClient.Options.Pending

/-! Options of calls on a single item.

Options are checked and rendered once, before anything is sent. The parameters that come
of them also serve the entry of a transaction. -/
namespace TableClient

/-- Whether a wish is written: only if there is one. -/
def wish (wanted : Bool) : Option Bool := if wanted then some true else none

/-! ### Reading -/

/-- Options of a read. -/
structure GetOptions where
  /-- The attributes to return; all if there are none. -/
  projection : List Path := []
  consistentRead : Bool := false
  reportCapacity : Option CapacityReport := none
deriving DecidableEq

namespace GetOptions

/-- Returns these attributes as well. -/
def select (o : GetOptions) (paths : List Path) : GetOptions :=
  { o with projection := o.projection ++ paths }

/-- The parameters of a read. -/
def parameters (o : GetOptions) (table : String) (key : Key) : Outcome Parameters := do
  key.validate Key.mostAttributes
  let p : Parameters :=
    { table, key, consistentRead := wish o.consistentRead, reportCapacity := o.reportCapacity }
  p.assemble { projection := o.projection }

/-- A read that is ready to be sent. -/
def finalize (o : GetOptions) (table : String) (key : Key) : Outcome (Pending GetItem.Request) := do
  return { request := (← o.parameters table key).toGetItem }

end GetOptions

/-! ### Writing -/

/-- Options of a write that may depend on a condition. -/
structure WriteOptions where
  /-- Conditions, all of which have to hold. -/
  conditions : List Condition := []
  returnValues : Option ReturnValue := none
  reportCapacity : Option CapacityReport := none
  reportMetrics : Option MetricsReport := none

namespace WriteOptions

/-- Writes only if the condition holds as well. -/
def onlyIf (o : WriteOptions) (condition : Option Condition) : WriteOptions :=
  { o with conditions := o.conditions ++ condition.toList }

/-- The parameters of a write of some item or key, before its expressions. -/
def report (o : WriteOptions) (p : Parameters) : Parameters :=
  { p with
    returnValues := o.returnValues
    reportCapacity := o.reportCapacity
    reportMetrics := o.reportMetrics }

end WriteOptions

/-- Options of writing an item. -/
structure PutOptions extends WriteOptions

namespace PutOptions

/-- The parameters of a write. -/
def parameters (o : PutOptions) (table : String) (item : Item) : Outcome Parameters := do
  if item.isEmpty then throw (.rejected .emptyItem)
  (o.report { table, item }).assemble { conditions := o.conditions }

/-- A write that is ready to be sent. -/
def finalize (o : PutOptions) (table : String) (item : Item) :
    Outcome (Pending PutItem.Request) := do
  return { request := (← o.parameters table item).toPutItem }

end PutOptions

/-- Options of deleting an item. -/
structure DeleteOptions extends WriteOptions

namespace DeleteOptions

/-- The parameters of a deletion. -/
def parameters (o : DeleteOptions) (table : String) (key : Key) : Outcome Parameters := do
  key.validate Key.mostAttributes
  (o.report { table, key }).assemble { conditions := o.conditions }

/-- A deletion that is ready to be sent. -/
def finalize (o : DeleteOptions) (table : String) (key : Key) :
    Outcome (Pending DeleteItem.Request) := do
  return { request := (← o.parameters table key).toDeleteItem }

end DeleteOptions

/-- Options of changing an item. -/
structure UpdateOptions extends WriteOptions where
  actions : List UpdateAction := []

namespace UpdateOptions

/-- Makes these changes as well. -/
def apply (o : UpdateOptions) (actions : List UpdateAction) : UpdateOptions :=
  { o with actions := o.actions ++ actions }

/-- The parameters of a change. -/
def parameters (o : UpdateOptions) (table : String) (key : Key) : Outcome Parameters := do
  key.validate Key.mostAttributes
  (o.report { table, key }).assemble { conditions := o.conditions, updates := o.actions }

/-- A change that is ready to be sent. -/
def finalize (o : UpdateOptions) (table : String) (key : Key) :
    Outcome (Pending UpdateItem.Request) := do
  return { request := (← o.parameters table key).toUpdateItem }

end UpdateOptions

end TableClient
