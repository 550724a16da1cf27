import TableClient.Operation

/-! The parameters of a request on one table.

A request is put together as a record of everything that a request on one table can
carry, and then narrowed to what its operation takes. -/
namespace TableClient

/-- Everything that a request on one table can carry. -/
structure Parameters where
  table : String := ""
  key : Key := ∅
  item : Item := ∅
  index : Option String := none
  keyCondition : Option String := none
  condition : Option String := none
  filter : Option String := none
  projection : Option String := none
  update : Option String := none
  names : KeyMap String := ∅
  values : KeyMap AttributeValue := ∅
  consistentRead : Option Bool := none
  limit : Option Int32 := none
  selection : Option Selection := none
  forward : Option Bool := none
  startKey : Key := ∅
  segment : Option Int32 := none
  totalSegments : Option Int32 := none
  returnValues : Option ReturnValue := none
  reportCapacity : Option CapacityReport := none
  reportMetrics : Option MetricsReport := none
deriving DecidableEq

/-- The fields of the parameters. -/
inductive Parameter where
  | table
  | key
  | item
  | index
  | keyCondition
  | condition
  | filter
  | projection
  | update
  | names
  | values
  | consistentRead
  | limit
  | selection
  | forward
  | startKey
  | segment
  | totalSegments
  | returnValues
  | reportCapacity
  | reportMetrics
deriving DecidableEq

instance : Choice Parameter where
  all := [.table, .key, .item, .index, .keyCondition, .condition, .filter, .projection, .update,
    .names, .values, .consistentRead, .limit, .selection, .forward, .startKey, .segment,
    .totalSegments, .returnValues, .reportCapacity, .reportMetrics]
  word
    | .table => "TableName"
    | .key => "Key"
    | .item => "Item"
    | .index => "IndexName"
    | .keyCondition => "KeyConditionExpression"
    | .condition => "ConditionExpression"
    | .filter => "FilterExpression"
    | .projection => "ProjectionExpression"
    | .update => "UpdateExpression"
    | .names => "ExpressionAttributeNames"
    | .values => "ExpressionAttributeValues"
    | .consistentRead => "ConsistentRead"
    | .limit => "Limit"
    | .selection => "Select"
    | .forward => "ScanIndexForward"
    | .startKey => "ExclusiveStartKey"
    | .segment => "Segment"
    | .totalSegments => "TotalSegments"
    | .returnValues => "ReturnValues"
    | .reportCapacity => "ReturnConsumedCapacity"
    | .reportMetrics => "ReturnItemCollectionMetrics"

namespace Parameters

/-- Parameters stand in JSON without the fields that hold nothing. -/
instance wire : Wire Parameters :=
  Fields.wire
    (.cons (.unlessEmpty (Choice.word Parameter.table) "" String.isEmpty) <|
      .cons (.map (Choice.word Parameter.key)) <|
      .cons (.map (Choice.word Parameter.item)) <|
      .cons (.optional (Choice.word Parameter.index)) <|
      .cons (.optional (Choice.word Parameter.keyCondition)) <|
      .cons (.optional (Choice.word Parameter.condition)) <|
      .cons (.optional (Choice.word Parameter.filter)) <|
      .cons (.optional (Choice.word Parameter.projection)) <|
      .cons (.optional (Choice.word Parameter.update)) <|
      .cons (.map (Choice.word Parameter.names)) <|
      .cons (.map (Choice.word Parameter.values)) <|
      .cons (.optional (Choice.word Parameter.consistentRead)) <|
      .cons (.optional (Choice.word Parameter.limit)) <|
      .cons (.optional (Choice.word Parameter.selection)) <|
      .cons (.optional (Choice.word Parameter.forward)) <|
      .cons (.map (Choice.word Parameter.startKey)) <|
      .cons (.optional (Choice.word Parameter.segment)) <|
      .cons (.optional (Choice.word Parameter.totalSegments)) <|
      .cons (.optional (Choice.word Parameter.returnValues)) <|
      .cons (.optional (Choice.word Parameter.reportCapacity)) <|
      .cons (.optional (Choice.word Parameter.reportMetrics)) .nil)
    (fun (table, key, item, index, keyCondition, condition, filter, projection, update, names,
        values, consistentRead, limit, selection, forward, startKey, segment, totalSegments,
        returnValues, reportCapacity, reportMetrics, ()) =>
      ⟨table, key, item, index, keyCondition, condition, filter, projection, update, names,
        values, consistentRead, limit, selection, forward, startKey, segment, totalSegments,
        returnValues, reportCapacity, reportMetrics⟩)
    (fun p => (p.table, p.key, p.item, p.index, p.keyCondition, p.condition, p.filter,
      p.projection, p.update, p.names, p.values, p.consistentRead, p.limit, p.selection, p.forward,
      p.startKey, p.segment, p.totalSegments, p.returnValues, p.reportCapacity, p.reportMetrics,
      ()))

/-- Reads parameters field by field, so that of several faults the first field's is met. -/
def ofJson (value : Json) : Except DecodeFault Parameters :=
  Wire.decodeWhole (value.pick ((Choice.all : List Parameter).map Choice.word))

/-- The parameters without the fields that are not allowed. -/
def retain (p : Parameters) (allowed : List Parameter) : Parameters :=
  let keep {α : Type} (field : Parameter) (a nothing : α) : α :=
    if field ∈ allowed then a else nothing
  { table := keep .table p.table ""
    key := keep .key p.key ∅
    item := keep .item p.item ∅
    index := keep .index p.index none
    keyCondition := keep .keyCondition p.keyCondition none
    condition := keep .condition p.condition none
    filter := keep .filter p.filter none
    projection := keep .projection p.projection none
    update := keep .update p.update none
    names := keep .names p.names ∅
    values := keep .values p.values ∅
    consistentRead := keep .consistentRead p.consistentRead none
    limit := keep .limit p.limit none
    selection := keep .selection p.selection none
    forward := keep .forward p.forward none
    startKey := keep .startKey p.startKey ∅
    segment := keep .segment p.segment none
    totalSegments := keep .totalSegments p.totalSegments none
    returnValues := keep .returnValues p.returnValues none
    reportCapacity := keep .reportCapacity p.reportCapacity none
    reportMetrics := keep .reportMetrics p.reportMetrics none }

/-! ### Narrowing -/

/-- What a read of one item takes. -/
def toGetItem (p : Parameters) : GetItem.Request :=
  { p with }

/-- What a write of one item takes. -/
def toPutItem (p : Parameters) : PutItem.Request :=
  { p with }

/-- What a change of one item takes. -/
def toUpdateItem (p : Parameters) : UpdateItem.Request :=
  { p with }

/-- What a deletion of one item takes. -/
def toDeleteItem (p : Parameters) : DeleteItem.Request :=
  { p with }

/-- What a query takes. -/
def toQuery (p : Parameters) : Query.Request :=
  { p with }

/-- What a scan takes. -/
def toScan (p : Parameters) : Scan.Request :=
  { p with }

/-- The settings of a read of many items, without their keys. -/
def toTableKeys (p : Parameters) : TableKeys :=
  { p with keys := [] }

end Parameters

end TableClient
