import TableClient.Message.Item

/-! Requests whose reply may continue on a further page: queries, scans and the list of
tables. -/
namespace TableClient

/-- Asks for the items under a partition key. -/
structure Query.Request where
  table : String
  index : Option String := none
  keyCondition : Option String := none
  filter : Option String := none
  projection : Option String := none
  names : KeyMap String := ∅
  values : KeyMap AttributeValue := ∅
  forward : Option Bool := none
  limit : Option Int32 := none
  startKey : Key := ∅
  selection : Option Selection := none
  consistentRead : Option Bool := none
  reportCapacity : Option CapacityReport := none
deriving DecidableEq

instance Query.Request.wire : Wire Query.Request :=
  Fields.wire
    (.cons (.required "TableName") <|
      .cons (.optional "IndexName") <|
      .cons (.optional "KeyConditionExpression") <|
      .cons (.optional "FilterExpression") <|
      .cons (.optional "ProjectionExpression") <|
      .cons (.map "ExpressionAttributeNames") <|
      .cons (.map "ExpressionAttributeValues") <|
      .cons (.optional "ScanIndexForward") <|
      .cons (.optional "Limit") <|
      .cons (.map "ExclusiveStartKey") <|
      .cons (.optional "Select") <|
      .cons (.optional "ConsistentRead") <|
      .cons (.optional "ReturnConsumedCapacity") .nil)
    (fun (table, index, keyCondition, filter, projection, names, values, forward, limit, startKey,
        selection, consistentRead, reportCapacity, ()) =>
      ⟨table, index, keyCondition, filter, projection, names, values, forward, limit, startKey,
        selection, consistentRead, reportCapacity⟩)
    (fun r => (r.table, r.index, r.keyCondition, r.filter, r.projection, r.names, r.values,
      r.forward, r.limit, r.startKey, r.selection, r.consistentRead, r.reportCapacity, ()))

/-- Asks for the items of a table or of one segment of it. -/
structure Scan.Request where
  table : String
  index : Option String := none
  filter : Option String := none
  projection : Option String := none
  names : KeyMap String := ∅
  values : KeyMap AttributeValue := ∅
  limit : Option Int32 := none
  startKey : Key := ∅
  segment : Option Int32 := none
  totalSegments : Option Int32 := none
  selection : Option Selection := none
  consistentRead : Option Bool := none
  reportCapacity : Option CapacityReport := none
deriving DecidableEq

instance Scan.Request.wire : Wire Scan.Request :=
  Fields.wire
    (.cons (.required "TableName") <|
      .cons (.optional "IndexName") <|
      .cons (.optional "FilterExpression") <|
      .cons (.optional "ProjectionExpression") <|
      .cons (.map "ExpressionAttributeNames") <|
      .cons (.map "ExpressionAttributeValues") <|
      .cons (.optional "Limit") <|
      .cons (.map "ExclusiveStartKey") <|
      .cons (.optional "Segment") <|
      .cons (.optional "TotalSegments") <|
      .cons (.optional "Select") <|
      .cons (.optional "ConsistentRead") <|
      .cons (.optional "ReturnConsumedCapacity") .nil)
    (fun (table, index, filter, projection, names, values, limit, startKey, segment, totalSegments,
        selection, consistentRead, reportCapacity, ()) =>
      ⟨table, index, filter, projection, names, values, limit, startKey, segment, totalSegments,
        selection, consistentRead, reportCapacity⟩)
    (fun r => (r.table, r.index, r.filter, r.projection, r.names, r.values, r.limit, r.startKey,
      r.segment, r.totalSegments, r.selection, r.consistentRead, r.reportCapacity, ()))

/-- One page of items. -/
structure PageReply where
  items : List Item := []
  count : Int32 := 0
  scannedCount : Int32 := 0
  lastKey : Key := ∅
  capacity : Option (ConsumedCapacity Float) := none

instance PageReply.wire : Wire PageReply :=
  Fields.wire
    (.cons (.list "Items") <|
      .cons (.defaulted "Count" 0) <|
      .cons (.defaulted "ScannedCount" 0) <|
      .cons (.map "LastEvaluatedKey") <|
      .cons (.optional "ConsumedCapacity") .nil)
    (fun (items, count, scannedCount, lastKey, capacity, ()) =>
      ⟨items, count, scannedCount, lastKey, capacity⟩)
    (fun r => (r.items, r.count, r.scannedCount, r.lastKey, r.capacity, ()))

/-- Asks for the names of tables. -/
structure ListTables.Request where
  startTable : Option String := none
  limit : Option Int32 := none
deriving DecidableEq

instance ListTables.Request.wire : Wire ListTables.Request :=
  Fields.wire
    (.cons (.optional "ExclusiveStartTableName") <|
      .cons (.optional "Limit") .nil)
    (fun (startTable, limit, ()) => ⟨startTable, limit⟩)
    (fun r => (r.startTable, r.limit, ()))

/-- One page of table names. -/
structure ListTables.Reply where
  tables : List String := []
  lastTable : Option String := none
deriving DecidableEq

instance ListTables.Reply.wire : Wire ListTables.Reply :=
  Fields.wire
    (.cons (.defaulted "TableNames" []) <|
      .cons (.optional "LastEvaluatedTableName") .nil)
    (fun (tables, lastTable, ()) => ⟨tables, lastTable⟩)
    (fun r => (r.tables, r.lastTable, ()))

end TableClient
