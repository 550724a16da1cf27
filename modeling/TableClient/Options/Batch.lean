import TableClient.Assembly
import TableClient.Key
import TableClient.Options.Item
import TableClient.Options.Pending

/-! Options of calls on many items. -/
namespace TableClient

/-- Keys to read, and the settings that every part of the read shares. -/
structure BatchRead where
  table : String
  keys : List Key
  template : TableKeys
  reportCapacity : Option CapacityReport
deriving DecidableEq

/-- Entries to write. -/
structure BatchChange where
  table : String
  entries : List WriteEntry
  reportCapacity : Option CapacityReport
  reportMetrics : Option MetricsReport
deriving DecidableEq

/-- Options of reading many items. -/
structure BatchGetOptions extends GetOptions
deriving DecidableEq

namespace BatchGetOptions

/-- A read of many items that is ready to be sent. -/
def finalize (o : BatchGetOptions) (table : String) (keys : List Key) :
    Outcome (Pending BatchRead) := do
  Key.validateAll keys
  let p : Parameters := { table, consistentRead := wish o.consistentRead }
  let p ← p.assemble { projection := o.projection }
  return { request :=
             { table, keys, template := p.toTableKeys, reportCapacity := o.reportCapacity } }

end BatchGetOptions

/-- Options of writing or deleting many items. -/
structure BatchWriteOptions where
  reportCapacity : Option CapacityReport := none
  reportMetrics : Option MetricsReport := none
deriving DecidableEq

namespace BatchWriteOptions

/-- A change of many items. -/
def change (o : BatchWriteOptions) (table : String) (entries : List WriteEntry) :
    Pending BatchChange :=
  { request :=
      { table, entries, reportCapacity := o.reportCapacity, reportMetrics := o.reportMetrics } }

/-- A write of many items that is ready to be sent. -/
def finalizePuts (o : BatchWriteOptions) (table : String) (items : List Item) :
    Outcome (Pending BatchChange) := do
  if items.isEmpty then throw (.rejected .noItems)
  return o.change table (items.map .ofItem)

/-- A deletion of many items that is ready to be sent. -/
def finalizeDeletes (o : BatchWriteOptions) (table : String) (keys : List Key) :
    Outcome (Pending BatchChange) := do
  Key.validateAll keys
  return o.change table (keys.map .ofKey)

end BatchWriteOptions

end TableClient
