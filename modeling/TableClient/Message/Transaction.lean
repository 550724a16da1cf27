import TableClient.Message.Item

/-! Requests that take effect as a whole. -/
namespace TableClient

/-! ### Writes -/

namespace TransactWrite

/-- Asserts a condition on an item. -/
structure Check where
  table : String
  key : Key
  condition : String
  names : KeyMap String := ∅
  values : KeyMap AttributeValue := ∅
  onFailure : Option FailureReturn := none
deriving DecidableEq

instance Check.wire : Wire Check :=
  Fields.wire
    (.cons (.required "TableName") <|
      .cons (.required "Key") <|
      .cons (.required "ConditionExpression") <|
      .cons (.map "ExpressionAttributeNames") <|
      .cons (.map "ExpressionAttributeValues") <|
      .cons (.optional "ReturnValuesOnConditionCheckFailure") .nil)
    (fun (table, key, condition, names, values, onFailure, ()) =>
      ⟨table, key, condition, names, values, onFailure⟩)
    (fun c => (c.table, c.key, c.condition, c.names, c.values, c.onFailure, ()))

/-- Writes an item. -/
structure Put where
  table : String
  item : Item
  condition : Option String := none
  names : KeyMap String := ∅
  values : KeyMap AttributeValue := ∅
  onFailure : Option FailureReturn := none
deriving DecidableEq

instance Put.wire : Wire Put :=
  Fields.wire
    (.cons (.required "TableName") <|
      .cons (.required "Item") <|
      .cons (.optional "ConditionExpression") <|
      .cons (.map "ExpressionAttributeNames") <|
      .cons (.map "ExpressionAttributeValues") <|
      .cons (.optional "ReturnValuesOnConditionCheckFailure") .nil)
    (fun (table, item, condition, names, values, onFailure, ()) =>
      ⟨table, item, condition, names, values, onFailure⟩)
    (fun p => (p.table, p.item, p.condition, p.names, p.values, p.onFailure, ()))

/-- Deletes an item. -/
structure Delete where
  table : String
  key : Key
  condition : Option String := none
  names : KeyMap String := ∅
  values : KeyMap AttributeValue := ∅
  onFailure : Option FailureReturn := none
deriving DecidableEq

instance Delete.wire : Wire Delete :=
  Fields.wire
    (.cons (.required "TableName") <|
      .cons (.required "Key") <|
      .cons (.optional "ConditionExpression") <|
      .cons (.map "ExpressionAttributeNames") <|
      .cons (.map "ExpressionAttributeValues") <|
      .cons (.optional "ReturnValuesOnConditionCheckFailure") .nil)
    (fun (table, key, condition, names, values, onFailure, ()) =>
      ⟨table, key, condition, names, values, onFailure⟩)
    (fun d => (d.table, d.key, d.condition, d.names, d.values, d.onFailure, ()))

/-- Changes an item. -/
structure Update where
  table : String
  key : Key
  update : String
  condition : Option String := none
  names : KeyMap String := ∅
  values : KeyMap AttributeValue := ∅
  onFailure : Option FailureReturn := none
deriving DecidableEq

instance Update.wire : Wire Update :=
  Fields.wire
    (.cons (.required "TableName") <|
      .cons (.required "Key") <|
      .cons (.required "UpdateExpression") <|
      .cons (.optional "ConditionExpression") <|
      .cons (.map "ExpressionAttributeNames") <|
      .cons (.map "ExpressionAttributeValues") <|
      .cons (.optional "ReturnValuesOnConditionCheckFailure") .nil)
    (fun (table, key, update, condition, names, values, onFailure, ()) =>
      ⟨table, key, update, condition, names, values, onFailure⟩)
    (fun u => (u.table, u.key, u.update, u.condition, u.names, u.values, u.onFailure, ()))

/-- One entry of a write. -/
structure Entry where
  check : Option Check := none
  put : Option Put := none
  delete : Option Delete := none
  update : Option Update := none
deriving DecidableEq

instance Entry.wire : Wire Entry :=
  Fields.wire
    (.cons (.optional "ConditionCheck") <|
      .cons (.optional "Put") <|
      .cons (.optional "Delete") <|
      .cons (.optional "Update") .nil)
    (fun (check, put, delete, update, ()) => ⟨check, put, delete, update⟩)
    (fun e => (e.check, e.put, e.delete, e.update, ()))

/-- Writes that take effect together. The token tells repetitions of one request from
another request. -/
structure Request where
  entries : List Entry
  token : Option String := none
  reportCapacity : Option CapacityReport := none
  reportMetrics : Option MetricsReport := none
deriving DecidableEq

instance Request.wire : Wire Request :=
  Fields.wire
    (.cons (.required "TransactItems") <|
      .cons (.optional "ClientRequestToken") <|
      .cons (.optional "ReturnConsumedCapacity") <|
      .cons (.optional "ReturnItemCollectionMetrics") .nil)
    (fun (entries, token, reportCapacity, reportMetrics, ()) =>
      ⟨entries, token, reportCapacity, reportMetrics⟩)
    (fun r => (r.entries, r.token, r.reportCapacity, r.reportMetrics, ()))

/-- What the writes consumed. -/
structure Reply where
  capacity : List (ConsumedCapacity Float) := []
  metrics : KeyMap (List CollectionMetrics) := ∅

instance Reply.wire : Wire Reply :=
  Fields.wire
    (.cons (.list "ConsumedCapacity") <|
      .cons (.map "ItemCollectionMetrics") .nil)
    (fun (capacity, metrics, ()) => ⟨capacity, metrics⟩)
    (fun r => (r.capacity, r.metrics, ()))

end TransactWrite

/-! ### Reads -/

namespace TransactGet

/-- Reads an item. -/
structure Get where
  table : String
  key : Key
  projection : Option String := none
  names : KeyMap String := ∅
deriving DecidableEq

instance Get.wire : Wire Get :=
  Fields.wire
    (.cons (.required "TableName") <|
      .cons (.required "Key") <|
      .cons (.optional "ProjectionExpression") <|
      .cons (.map "ExpressionAttributeNames") .nil)
    (fun (table, key, projection, names, ()) => ⟨table, key, projection, names⟩)
    (fun g => (g.table, g.key, g.projection, g.names, ()))

/-- One entry of a read. -/
structure Entry where
  get : Get
deriving DecidableEq

instance Entry.wire : Wire Entry :=
  Fields.wire (.cons (.required "Get") .nil) (fun (get, ()) => ⟨get⟩) (fun e => (e.get, ()))

/-- Reads of one state of the store. -/
structure Request where
  entries : List Entry
  reportCapacity : Option CapacityReport := none
deriving DecidableEq

instance Request.wire : Wire Request :=
  Fields.wire
    (.cons (.required "TransactItems") <|
      .cons (.optional "ReturnConsumedCapacity") .nil)
    (fun (entries, reportCapacity, ()) => ⟨entries, reportCapacity⟩)
    (fun r => (r.entries, r.reportCapacity, ()))

/-- The item of one entry, if there is one. -/
structure Found where
  item : Option Item := none
deriving DecidableEq

instance Found.wire : Wire Found :=
  Fields.wire (.cons (.optional "Item") .nil) (fun (item, ()) => ⟨item⟩) (fun f => (f.item, ()))

/-- The items in the order of the entries. -/
structure Reply where
  found : List Found := []
  capacity : List (ConsumedCapacity Float) := []

instance Reply.wire : Wire Reply :=
  Fields.wire
    (.cons (.defaulted "Responses" []) <|
      .cons (.list "ConsumedCapacity") .nil)
    (fun (found, capacity, ()) => ⟨found, capacity⟩)
    (fun r => (r.found, r.capacity, ()))

end TransactGet

end TableClient
