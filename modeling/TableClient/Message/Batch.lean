import TableClient.Message.Item

/-! Requests on many items, of which the store may leave some unprocessed. -/
namespace TableClient

/-- Keys to read from one table, with the settings of the read. -/
structure TableKeys where
  keys : List Key
  projection : Option String := none
  names : KeyMap String := ∅
  consistentRead : Option Bool := none
deriving DecidableEq

instance TableKeys.wire : Wire TableKeys :=
  Fields.wire
    (.cons (.required "Keys") <|
      .cons (.optional "ProjectionExpression") <|
      .cons (.map "ExpressionAttributeNames") <|
      .cons (.optional "ConsistentRead") .nil)
    (fun (keys, projection, names, consistentRead, ()) => ⟨keys, projection, names, consistentRead⟩)
    (fun t => (t.keys, t.projection, t.names, t.consistentRead, ()))

/-- Reads items by table. -/
structure BatchGet.Request where
  tables : KeyMap TableKeys
  reportCapacity : Option CapacityReport := none
deriving DecidableEq

instance BatchGet.Request.wire : Wire BatchGet.Request :=
  Fields.wire
    (.cons (.required "RequestItems") <|
      .cons (.optional "ReturnConsumedCapacity") .nil)
    (fun (tables, reportCapacity, ()) => ⟨tables, reportCapacity⟩)
    (fun r => (r.tables, r.reportCapacity, ()))

/-- The items found, by table, and the keys that were not looked at. -/
structure BatchGet.Reply where
  items : KeyMap (List Item) := ∅
  unprocessed : KeyMap TableKeys := ∅
  capacity : List (ConsumedCapacity Float) := []

instance BatchGet.Reply.wire : Wire BatchGet.Reply :=
  Fields.wire
    (.cons (.defaulted "Responses" ∅) <|
      .cons (.defaulted "UnprocessedKeys" ∅) <|
      .cons (.list "ConsumedCapacity") .nil)
    (fun (items, unprocessed, capacity, ()) => ⟨items, unprocessed, capacity⟩)
    (fun r => (r.items, r.unprocessed, r.capacity, ()))

/-- The item that an entry of a batch writes. -/
structure PutEntry where
  item : Item
deriving DecidableEq

instance PutEntry.wire : Wire PutEntry :=
  Fields.wire (.cons (.required "Item") .nil) (fun (item, ()) => ⟨item⟩) (fun e => (e.item, ()))

/-- The key that an entry of a batch deletes. -/
structure DeleteEntry where
  key : Key
deriving DecidableEq

instance DeleteEntry.wire : Wire DeleteEntry :=
  Fields.wire (.cons (.required "Key") .nil) (fun (key, ()) => ⟨key⟩) (fun e => (e.key, ()))

/-- One entry of a batch write. -/
structure WriteEntry where
  put : Option PutEntry := none
  delete : Option DeleteEntry := none
deriving DecidableEq

instance WriteEntry.wire : Wire WriteEntry :=
  Fields.wire
    (.cons (.optional "PutRequest") <|
      .cons (.optional "DeleteRequest") .nil)
    (fun (put, delete, ()) => ⟨put, delete⟩)
    (fun e => (e.put, e.delete, ()))

namespace WriteEntry

/-- Writes an item. -/
def ofItem (item : Item) : WriteEntry := { put := some ⟨item⟩ }

/-- Deletes the item at a key. -/
def ofKey (key : Key) : WriteEntry := { delete := some ⟨key⟩ }

end WriteEntry

/-- Writes and deletes items by table. -/
structure BatchWrite.Request where
  tables : KeyMap (List WriteEntry)
  reportCapacity : Option CapacityReport := none
  reportMetrics : Option MetricsReport := none
deriving DecidableEq

instance BatchWrite.Request.wire : Wire BatchWrite.Request :=
  Fields.wire
    (.cons (.required "RequestItems") <|
      .cons (.optional "ReturnConsumedCapacity") <|
      .cons (.optional "ReturnItemCollectionMetrics") .nil)
    (fun (tables, reportCapacity, reportMetrics, ()) => ⟨tables, reportCapacity, reportMetrics⟩)
    (fun r => (r.tables, r.reportCapacity, r.reportMetrics, ()))

/-- The entries that were not applied, and the metrics of those that were. -/
structure BatchWrite.Reply where
  unprocessed : KeyMap (List WriteEntry) := ∅
  metrics : KeyMap (List CollectionMetrics) := ∅
  capacity : List (ConsumedCapacity Float) := []

instance BatchWrite.Reply.wire : Wire BatchWrite.Reply :=
  Fields.wire
    (.cons (.defaulted "UnprocessedItems" ∅) <|
      .cons (.map "ItemCollectionMetrics") <|
      .cons (.list "ConsumedCapacity") .nil)
    (fun (unprocessed, metrics, capacity, ()) => ⟨unprocessed, metrics, capacity⟩)
    (fun r => (r.unprocessed, r.metrics, r.capacity, ()))

end TableClient
