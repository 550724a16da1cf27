import TableClient.AttributeValue.Wire
import TableClient.Message.Capacity
import TableClient.Message.Mode

/-! Requests on a single item, and their replies. -/
namespace TableClient

/-- The size of the collection of items that a write touched. -/
structure CollectionMetrics where
  key : Key := ∅
  sizeRange : List Float := []

instance CollectionMetrics.wire : Wire CollectionMetrics :=
  Fields.wire
    (.cons (.map "ItemCollectionKey") <|
      .cons (.list "SizeEstimateRangeGB") .nil)
    (fun (key, sizeRange, ()) => ⟨key, sizeRange⟩)
    (fun m => (m.key, m.sizeRange, ()))

/-- The reply to a write of one item. -/
structure WriteReply where
  attributes : Item := ∅
  capacity : Option (ConsumedCapacity Float) := none
  metrics : Option CollectionMetrics := none

instance WriteReply.wire : Wire WriteReply :=
  Fields.wire
    (.cons (.map "Attributes") <|
      .cons (.optional "ConsumedCapacity") <|
      .cons (.optional "ItemCollectionMetrics") .nil)
    (fun (attributes, capacity, metrics, ()) => ⟨attributes, capacity, metrics⟩)
    (fun r => (r.attributes, r.capacity, r.metrics, ()))

/-- Asks for one item. -/
structure GetItem.Request where
  table : String
  key : Key
  consistentRead : Option Bool := none
  projection : Option String := none
  names : KeyMap String := ∅
  reportCapacity : Option CapacityReport := none
deriving DecidableEq

instance GetItem.Request.wire : Wire GetItem.Request :=
  Fields.wire
    (.cons (.required "TableName") <|
      .cons (.required "Key") <|
      .cons (.optional "ConsistentRead") <|
      .cons (.optional "ProjectionExpression") <|
      .cons (.map "ExpressionAttributeNames") <|
      .cons (.optional "ReturnConsumedCapacity") .nil)
    (fun (table, key, consistentRead, projection, names, reportCapacity, ()) =>
      ⟨table, key, consistentRead, projection, names, reportCapacity⟩)
    (fun r => (r.table, r.key, r.consistentRead, r.projection, r.names, r.reportCapacity, ()))

/-- The item asked for, if there is one. -/
structure GetItem.Reply where
  item : Option Item := none
  capacity : Option (ConsumedCapacity Float) := none

instance GetItem.Reply.wire : Wire GetItem.Reply :=
  Fields.wire
    (.cons (.optional "Item") <|
      .cons (.optional "ConsumedCapacity") .nil)
    (fun (item, capacity, ()) => ⟨item, capacity⟩)
    (fun r => (r.item, r.capacity, ()))

/-- Writes one item. -/
structure PutItem.Request where
  table : String
  item : Item
  condition : Option String := none
  names : KeyMap String := ∅
  values : KeyMap AttributeValue := ∅
  returnValues : Option ReturnValue := none
  reportCapacity : Option CapacityReport := none
  reportMetrics : Option MetricsReport := none
deriving DecidableEq

instance PutItem.Request.wire : Wire PutItem.Request :=
  Fields.wire
    (.cons (.required "TableName") <|
      .cons (.required "Item") <|
      .cons (.optional "ConditionExpression") <|
      .cons (.map "ExpressionAttributeNames") <|
      .cons (.map "ExpressionAttributeValues") <|
      .cons (.optional "ReturnValues") <|
      .cons (.optional "ReturnConsumedCapacity") <|
      .cons (.optional "ReturnItemCollectionMetrics") .nil)
    (fun (table, item, condition, names, values, returnValues, reportCapacity, reportMetrics, ()) =>
      ⟨table, item, condition, names, values, returnValues, reportCapacity, reportMetrics⟩)
    (fun r => (r.table, r.item, r.condition, r.names, r.values, r.returnValues, r.reportCapacity,
      r.reportMetrics, ()))

/-- Changes one item. -/
structure UpdateItem.Request where
  table : String
  key : Key
  update : Option String := none
  condition : Option String := none
  names : KeyMap String := ∅
  values : KeyMap AttributeValue := ∅
  returnValues : Option ReturnValue := none
  reportCapacity : Option CapacityReport := none
  reportMetrics : Option MetricsReport := none
deriving DecidableEq

instance UpdateItem.Request.wire : Wire UpdateItem.Request :=
  Fields.wire
    (.cons (.required "TableName") <|
      .cons (.required "Key") <|
      .cons (.optional "UpdateExpression") <|
      .cons (.optional "ConditionExpression") <|
      .cons (.map "ExpressionAttributeNames") <|
      .cons (.map "ExpressionAttributeValues") <|
      .cons (.optional "ReturnValues") <|
      .cons (.optional "ReturnConsumedCapacity") <|
      .cons (.optional "ReturnItemCollectionMetrics") .nil)
    (fun (table, key, update, condition, names, values, returnValues, reportCapacity, reportMetrics,
        ()) =>
      ⟨table, key, update, condition, names, values, returnValues, reportCapacity, reportMetrics⟩)
    (fun r => (r.table, r.key, r.update, r.condition, r.names, r.values, r.returnValues,
      r.reportCapacity, r.reportMetrics, ()))

/-- Deletes one item. -/
structure DeleteItem.Request where
  table : String
  key : Key
  condition : Option String := none
  names : KeyMap String := ∅
  values : KeyMap AttributeValue := ∅
  returnValues : Option ReturnValue := none
  reportCapacity : Option CapacityReport := none
  reportMetrics : Option MetricsReport := none
deriving DecidableEq

instance DeleteItem.Request.wire : Wire DeleteItem.Request :=
  Fields.wire
    (.cons (.required "TableName") <|
      .cons (.required "Key") <|
      .cons (.optional "ConditionExpression") <|
      .cons (.map "ExpressionAttributeNames") <|
      .cons (.map "ExpressionAttributeValues") <|
      .cons (.optional "ReturnValues") <|
      .cons (.optional "ReturnConsumedCapacity") <|
      .cons (.optional "ReturnItemCollectionMetrics") .nil)
    (fun (table, key, condition, names, values, returnValues, reportCapacity, reportMetrics, ()) =>
      ⟨table, key, condition, names, values, returnValues, reportCapacity, reportMetrics⟩)
    (fun r => (r.table, r.key, r.condition, r.names, r.values, r.returnValues, r.reportCapacity,
      r.reportMetrics, ()))

end TableClient
