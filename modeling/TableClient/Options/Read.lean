import TableClient.Assembly
import TableClient.Key
import TableClient.Options.Item
import TableClient.Options.Pending

/-! Options of calls that are answered page by page. -/
namespace TableClient

/-- Options that queries and scans share. -/
structure ReadOptions where
  /-- Conditions on the items to return, all of which have to hold. -/
  filters : List Condition := []
  /-- The attributes to return; all if there are none. -/
  projection : List Path := []
  index : Option String := none
  consistentRead : Bool := false
  /-- The most items to return. -/
  limit : Option Nat := none
  /-- Whether one page is fetched and its cursor returned. -/
  singlePage : Bool := false
  /-- A cursor to resume from, or nothing. -/
  startKey : Key := ∅
  selection : Option Selection := none
  reportCapacity : Option CapacityReport := none

namespace ReadOptions

/-- Returns only items for which the condition holds as well. -/
def filterBy (o : ReadOptions) (condition : Option Condition) : ReadOptions :=
  { o with filters := o.filters ++ condition.toList }

/-- Returns these attributes as well. -/
def select (o : ReadOptions) (paths : List Path) : ReadOptions :=
  { o with projection := o.projection ++ paths }

/-- The parameters of a read, before its expressions. -/
def parameters (o : ReadOptions) (table : String) : Outcome Parameters := do
  let limit ← wireLimit o.limit
  return { table
           index := o.index
           consistentRead := wish o.consistentRead
           limit
           startKey := o.startKey
           selection := o.selection
           reportCapacity := o.reportCapacity }

/-- How far cursors are followed. -/
def paging (o : ReadOptions) : Paging := { limit := o.limit, singlePage := o.singlePage }

end ReadOptions

/-! ### Queries -/

/-- Options of a query. -/
structure QueryOptions extends ReadOptions where
  /-- Further conditions on the key, all of which have to hold. -/
  keyConditions : List Condition := []
  /-- Whether items come in descending order. -/
  descending : Bool := false

namespace QueryOptions

/-- Returns only items whose key satisfies the condition as well. -/
def having (o : QueryOptions) (condition : Option Condition) : QueryOptions :=
  { o with keyConditions := o.keyConditions ++ condition.toList }

/-- A query of a partition that is ready to be sent. -/
def finalize (o : QueryOptions) (table : String) (partition : Key) :
    Outcome (Pending Query.Request) := do
  let partitionCondition ← partition.partitionCondition
  let p ← o.parameters table
  let p := { p with forward := if o.descending then some false else none }
  let p ← p.assemble
    { projection := o.projection
      keyConditions := partitionCondition :: o.keyConditions
      filters := o.filters }
  return { request := p.toQuery, paging := o.paging }

end QueryOptions

/-! ### Scans -/

/-- How a scan is split. -/
inductive Segmentation where
  /-- Into as many segments as the client's settings say. -/
  | default
  /-- Not at all. -/
  | disabled
  /-- Into a number of segments. -/
  | total (segments : Nat)
  /-- Only one segment of a number of them is scanned. -/
  | only (segment total : Nat)
deriving DecidableEq

/-- Options of a scan. -/
structure ScanOptions extends ReadOptions where
  segmentation : Segmentation := .default

namespace ScanOptions

/-- The segments into which the scan is to be split. -/
def segments (o : ScanOptions) (defaultSegments : Nat) : Option Nat :=
  match o.segmentation with
  | .default => some defaultSegments
  | .disabled => none
  | .total segments => some segments
  | .only _ _ => none

/-- The parameters of a scan of one segment. -/
def oneSegment (o : ScanOptions) (p : Parameters) : Parameters :=
  match o.segmentation with
  | .only segment total =>
    { p with segment := some (wireNumber segment), totalSegments := some (wireNumber total) }
  | _ => p

/-- A scan that is ready to be sent. -/
def finalize (o : ScanOptions) (table : String) (defaultSegments : Nat) :
    Outcome (Pending Scan.Request) := do
  let p ← o.parameters table
  let p ← (o.oneSegment p).assemble { projection := o.projection, filters := o.filters }
  return { request := p.toScan, paging := o.paging, segments := o.segments defaultSegments }

end ScanOptions

/-! ### Lists of tables -/

/-- Options of listing tables. -/
structure ListTablesOptions where
  /-- The most names to return. -/
  limit : Option Nat := none
  /-- A table after which to start. -/
  startTable : Option String := none
deriving DecidableEq

namespace ListTablesOptions

/-- The most names that the store returns on a page. -/
def mostNames : Nat := 100

/-- A list of tables that is ready to be asked for. -/
def finalize (o : ListTablesOptions) : Outcome (Pending ListTables.Request) := do
  if o.limit.any (mostNames < ·) then throw (.rejected .tableLimitTooLarge)
  let limit ← wireLimit o.limit
  return { request := { startTable := o.startTable, limit }, paging := { limit := o.limit } }

end ListTablesOptions

end TableClient
