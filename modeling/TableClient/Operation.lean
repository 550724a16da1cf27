import TableClient.Message.Batch
import TableClient.Message.Read
import TableClient.Message.Transaction

/-! The operations of the store, each with the type of its request and of its reply. -/
namespace TableClient

/-- The operations of the store. -/
inductive Operation where
  | listTables
  | putItem
  | getItem
  | updateItem
  | deleteItem
  | query
  | scan
  | batchGet
  | batchWrite
  | transactGet
  | transactWrite
deriving DecidableEq

namespace Operation

/-- All operations. -/
def all : List Operation :=
  [.listTables, .putItem, .getItem, .updateItem, .deleteItem, .query, .scan, .batchGet,
    .batchWrite, .transactGet, .transactWrite]

/-- The name by which the store knows an operation. -/
def name : Operation → String
  | .listTables => "ListTables"
  | .putItem => "PutItem"
  | .getItem => "GetItem"
  | .updateItem => "UpdateItem"
  | .deleteItem => "DeleteItem"
  | .query => "Query"
  | .scan => "Scan"
  | .batchGet => "BatchGetItem"
  | .batchWrite => "BatchWriteItem"
  | .transactGet => "TransactGetItems"
  | .transactWrite => "TransactWriteItems"

/-- The operation of a name. -/
def ofName? (name : String) : Option Operation := all.find? fun op => op.name = name

/-- The name by which a request over HTTP asks for an operation. -/
def target (op : Operation) : String := "DynamoDB_20120810." ++ op.name

/-- Whether an operation touches a single item. -/
def isSingleItem : Operation → Bool
  | .getItem | .putItem | .updateItem | .deleteItem => true
  | _ => false

/-- What an operation is asked with. -/
@[reducible] def Request : Operation → Type
  | .listTables => ListTables.Request
  | .putItem => PutItem.Request
  | .getItem => GetItem.Request
  | .updateItem => UpdateItem.Request
  | .deleteItem => DeleteItem.Request
  | .query => Query.Request
  | .scan => Scan.Request
  | .batchGet => BatchGet.Request
  | .batchWrite => BatchWrite.Request
  | .transactGet => TransactGet.Request
  | .transactWrite => TransactWrite.Request

/-- What an operation is answered with. -/
@[reducible] def Reply : Operation → Type
  | .listTables => ListTables.Reply
  | .putItem | .updateItem | .deleteItem => WriteReply
  | .getItem => GetItem.Reply
  | .query | .scan => PageReply
  | .batchGet => BatchGet.Reply
  | .batchWrite => BatchWrite.Reply
  | .transactGet => TransactGet.Reply
  | .transactWrite => TransactWrite.Reply

instance (op : Operation) : Wire op.Request := by
  cases op <;> infer_instance

instance (op : Operation) : Wire op.Reply := by
  cases op <;> infer_instance

end Operation

end TableClient
