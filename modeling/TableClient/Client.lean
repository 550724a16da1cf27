import TableClient.Batch
import TableClient.Options.Item
import TableClient.Options.Read
import TableClient.Scan
import TableClient.Transaction

/-! A client of one table.

Every call first brings its options into a request, so that input that is not accepted
fails before anything is sent. Most calls come in two forms, one that returns the reply
or all that the pages held, and one that returns the items in it. -/
namespace TableClient

/-- A client of one table, with settings that have been checked. -/
structure Client where
  table : String
  settings : Settings
  valid : settings.validate = .ok ()

namespace Client

/-- A client with settings that pass their checks. -/
def open? (table : String) (settings : Settings) : Outcome Client :=
  match valid : settings.validate with
  | .ok () => .ok ⟨table, settings, valid⟩
  | .error failure => .error failure

/-! ### Single items -/

/-- Reads an item. -/
def getReply (c : Client) (key : Key) (o : GetOptions) : Call GetItem.Reply := do
  let pending ← Call.ofOutcome (o.finalize c.table key)
  send c.settings .getItem pending.request

/-- Reads an item, if it is there. -/
def get (c : Client) (key : Key) (o : GetOptions) : Call (Option Item) := do
  return (← c.getReply key o).item

/-- Writes an item. -/
def putReply (c : Client) (item : Item) (o : PutOptions) : Call WriteReply := do
  let pending ← Call.ofOutcome (o.finalize c.table item)
  send c.settings .putItem pending.request

/-- Writes an item and returns it. -/
def put (c : Client) (item : Item) (o : PutOptions) : Call Item := do
  let pending ← Call.ofOutcome (o.finalize c.table item)
  discard (send c.settings .putItem pending.request)
  return pending.request.item

/-- Changes an item. -/
def updateReply (c : Client) (key : Key) (o : UpdateOptions) : Call WriteReply := do
  let pending ← Call.ofOutcome (o.finalize c.table key)
  send c.settings .updateItem pending.request

/-- Changes an item and returns the attributes that came back. -/
def update (c : Client) (key : Key) (o : UpdateOptions) : Call Item := do
  return (← c.updateReply key o).attributes

/-- Deletes an item. -/
def deleteReply (c : Client) (key : Key) (o : DeleteOptions) : Call WriteReply := do
  let pending ← Call.ofOutcome (o.finalize c.table key)
  send c.settings .deleteItem pending.request

/-- Deletes an item and returns the attributes that came back. -/
def delete (c : Client) (key : Key) (o : DeleteOptions) : Call Item := do
  return (← c.deleteReply key o).attributes

/-! ### Pages -/

/-- Queries a partition. -/
def queryPages (c : Client) (rounds : Nat) (partition : Key) (o : QueryOptions) :
    Call (Aggregate Float Item Key) := do
  let pending ← Call.ofOutcome (o.finalize c.table partition)
  paginate c.settings Paged.query rounds pending.request pending.paging

/-- The items of a query. -/
def query (c : Client) (rounds : Nat) (partition : Key) (o : QueryOptions) : Call (List Item) := do
  return (← c.queryPages rounds partition o).items

/-- Scans the table. -/
def scanPages (c : Client) (rounds : Nat) (o : ScanOptions) : Call (Aggregate Float Item Key) := do
  let pending ← Call.ofOutcome (o.finalize c.table c.settings.scanSegments)
  pending.request.run c.settings rounds pending.paging pending.segments

/-- The items of a scan. -/
def scan (c : Client) (rounds : Nat) (o : ScanOptions) : Call (List Item) := do
  return (← c.scanPages rounds o).items

/-- Lists the tables of the store. -/
def listTablesPages (c : Client) (rounds : Nat) (o : ListTablesOptions) :
    Call (Aggregate Float String String) := do
  let pending ← Call.ofOutcome o.finalize
  paginate c.settings Paged.listTables rounds pending.request pending.paging

/-- The names of the tables of the store. -/
def listTables (c : Client) (rounds : Nat) (o : ListTablesOptions) : Call (List String) := do
  return (← c.listTablesPages rounds o).items

/-! ### Batches -/

/-- Reads the items at several keys. -/
def batchGetReply (c : Client) (rounds : Nat) (keys : List Key) (o : BatchGetOptions) :
    Call BatchGet.Reply := do
  let pending ← Call.ofOutcome (o.finalize c.table keys)
  pending.request.run c.settings rounds

/-- The items at several keys. -/
def batchGet (c : Client) (rounds : Nat) (keys : List Key) (o : BatchGetOptions) :
    Call (List Item) := do
  return ((← c.batchGetReply rounds keys o).items.get? c.table).getD []

/-- Writes several items. -/
def batchPutReply (c : Client) (rounds : Nat) (items : List Item) (o : BatchWriteOptions) :
    Call BatchWrite.Reply := do
  let pending ← Call.ofOutcome (o.finalizePuts c.table items)
  pending.request.run c.settings rounds

/-- Writes several items and returns them. -/
def batchPut (c : Client) (rounds : Nat) (items : List Item) (o : BatchWriteOptions) :
    Call (List Item) := do
  discard (c.batchPutReply rounds items o)
  return items

/-- Deletes the items at several keys. -/
def batchDelete (c : Client) (rounds : Nat) (keys : List Key) (o : BatchWriteOptions) :
    Call BatchWrite.Reply := do
  let pending ← Call.ofOutcome (o.finalizeDeletes c.table keys)
  pending.request.run c.settings rounds

/-! ### Transactions -/

/-- Makes several writes that take effect together. `fresh` names the call if its options do
not. -/
def transactWrite (c : Client) (fresh : String) (actions : List TransactAction)
    (o : TransactWriteOptions) : Call TransactWrite.Reply := do
  let request ← Call.ofOutcome (o.compose actions fresh)
  send c.settings .transactWrite request

/-- Reads several items from one state of the store. -/
def transactGetReply (c : Client) (reads : List TransactRead)
    (reportCapacity : Option CapacityReport) : Call TransactGet.Reply := do
  let request ← Call.ofOutcome (TransactRead.compose reads reportCapacity)
  send c.settings .transactGet request

/-- The items that are there of several, from one state of the store. -/
def transactGet (c : Client) (reads : List TransactRead) : Call (List (Option Item)) := do
  return (← c.transactGetReply reads none).found.map TransactGet.Found.item

end Client

end TableClient
