import TableClient.Operation

/-! Pages and their aggregation.

A reply may hold one page of a longer answer, with a cursor from which the next page
starts. The items, counts and capacity of several pages add up to an aggregate; aggregates
of several parts are merged in order. -/
namespace TableClient

/-- How far cursors are followed. -/
structure Paging where
  /-- The most items to return. -/
  limit : Option Nat := none
  /-- Whether the first page is all, and its cursor is returned. -/
  singlePage : Bool := false
deriving DecidableEq

/-- One page of items of type `ι`, with units of type `υ` and a cursor of type `κ`. -/
structure Page (υ ι κ : Type) where
  items : List ι
  count : Nat
  scannedCount : Nat
  capacity : Option (ConsumedCapacity υ)
  /-- Where the next page starts, if there is one. -/
  cursor : Option κ

/-- What several pages hold together. -/
structure Aggregate (υ ι κ : Type) where
  items : List ι := []
  count : Nat := 0
  scannedCount : Nat := 0
  capacity : Option (ConsumedCapacity υ) := none
  /-- Where to resume. -/
  cursor : Option κ := none

namespace Aggregate
variable {υ ι κ : Type}

instance : EmptyCollection (Aggregate υ ι κ) := ⟨{}⟩

/-- Adds a page. Its cursor is not kept. -/
def absorb [Add υ] [Zero υ] (a : Aggregate υ ι κ) (page : Page υ ι κ) : Aggregate υ ι κ :=
  { a with
    items := a.items ++ page.items
    count := a.count + page.count
    scannedCount := a.scannedCount + page.scannedCount
    capacity := ConsumedCapacity.addReport a.capacity page.capacity }

/-- Adds another aggregate. Of two cursors the first stays. -/
def merge [Add υ] [Zero υ] (a b : Aggregate υ ι κ) : Aggregate υ ι κ :=
  { items := a.items ++ b.items
    count := a.count + b.count
    scannedCount := a.scannedCount + b.scannedCount
    capacity := ConsumedCapacity.addReport a.capacity b.capacity
    cursor := a.cursor.or b.cursor }

/-- Keeps items up to a limit; if there are that many, the count is that of the items kept. -/
def truncate (a : Aggregate υ ι κ) (limit : Nat) : Aggregate υ ι κ :=
  if limit ≤ a.items.length then
    { a with items := a.items.take limit, count := (a.items.take limit).length }
  else a

/-- Keeps items up to a limit, if there is one. -/
def truncate? (a : Aggregate υ ι κ) (limit : Option Nat) : Aggregate υ ι κ :=
  limit.elim a a.truncate

end Aggregate

/-! ### Operations that answer in pages -/

/-- The items of a page reply, and its last key as cursor if there is one. -/
def PageReply.page (r : PageReply) : Page Float Item Key where
  items := r.items
  count := r.count.toInt.toNat
  scannedCount := r.scannedCount.toInt.toNat
  capacity := r.capacity
  cursor := if r.lastKey.isEmpty then none else some r.lastKey

/-- The names of a page of tables. Every name counts. -/
def ListTables.Reply.page (r : ListTables.Reply) : Page Float String String where
  items := r.tables
  count := r.tables.length
  scannedCount := r.tables.length
  capacity := none
  cursor := r.lastTable

/-- How an operation is answered page by page. -/
structure Paged (op : Operation) (ι κ : Type) where
  /-- The same request from a cursor on. -/
  resume : op.Request → κ → op.Request
  page : op.Reply → Page Float ι κ

namespace Paged

/-- Queries start after a key. -/
def query : Paged .query Item Key where
  resume (request : Query.Request) cursor := { request with startKey := cursor }
  page := PageReply.page

/-- Scans start after a key. -/
def scan : Paged .scan Item Key where
  resume (request : Scan.Request) cursor := { request with startKey := cursor }
  page := PageReply.page

/-- Lists of tables start after a table. -/
def listTables : Paged .listTables String String where
  resume (request : ListTables.Request) cursor := { request with startTable := some cursor }
  page := ListTables.Reply.page

end Paged

end TableClient
