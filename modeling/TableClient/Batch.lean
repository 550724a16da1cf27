import TableClient.Key
import TableClient.Options.Batch
import TableClient.Retry

/-! Calls on many items.

The units of a call are cut into chunks that the store takes, and the chunks are sent at
once. What the store leaves unprocessed of a chunk is sent again, after a delay, until
nothing is left. -/
namespace TableClient

/-- How an operation is repeated for what it left unprocessed. -/
structure Batched (op : Operation) where
  /-- A request for what a reply left unprocessed, if it left anything. -/
  remainder : op.Request → op.Reply → Option op.Request
  /-- The reply that says nothing. -/
  nothing : op.Reply
  /-- What two replies say together. -/
  merge : op.Reply → op.Reply → op.Reply

namespace Batched

/-- Reads of many items. -/
def get : Batched .batchGet where
  remainder (request : BatchGet.Request) (reply : BatchGet.Reply) :=
    let left := reply.unprocessed.filter fun _ entry => !entry.keys.isEmpty
    if left.isEmpty then none else some { request with tables := left }
  nothing := ({} : BatchGet.Reply)
  merge (total reply : BatchGet.Reply) :=
    { total with
      items := total.items.extend reply.items
      capacity := ConsumedCapacity.addTables total.capacity reply.capacity }

/-- Writes of many items. -/
def write : Batched .batchWrite where
  remainder (request : BatchWrite.Request) (reply : BatchWrite.Reply) :=
    let left := reply.unprocessed.filter fun _ entries => !entries.isEmpty
    if left.isEmpty then none else some { request with tables := left }
  nothing := ({} : BatchWrite.Reply)
  merge (total reply : BatchWrite.Reply) :=
    { total with
      metrics := total.metrics.extend reply.metrics
      capacity := ConsumedCapacity.addTables total.capacity reply.capacity }

end Batched

/-! ### Repetition -/

/-- Sends a request and then what is left of it, and adds the replies to those that came
before. -/
def processFrom {op : Operation} (s : Settings) (batched : Batched op) :
    (rounds round : Nat) → op.Request → op.Reply → Call op.Reply
  | 0, _, _, _ => ExceptT.mk .cut
  | rounds + 1, round, request, before => do
    let reply ← send s op request
    let total := batched.merge before reply
    match batched.remainder request reply with
    | none => return total
    | some rest =>
      ExceptT.lift (Dialogue.wait (s.backoff.delayAfter round))
      processFrom s batched rounds (round + 1) rest total

/-- Sends a request until nothing of it is left, in no more than a number of rounds. -/
def process {op : Operation} (s : Settings) (batched : Batched op) (rounds : Nat)
    (request : op.Request) : Call op.Reply :=
  processFrom s batched rounds 1 request batched.nothing

/-! ### Chunks -/

/-- A list cut into pieces of a positive size; only the last may be shorter. -/
def chunks {α : Type} (size : Nat) (units : List α) : List (List α) :=
  match units with
  | [] => []
  | first :: rest => (first :: rest.take (size - 1)) :: chunks size (rest.drop (size - 1))
termination_by units.length
decreasing_by
  simp only [List.length_drop, List.length_cons]
  omega

/-- The pieces of a list, put together, are the list. -/
theorem flatten_chunks {α : Type} (size : Nat) (units : List α) :
    (chunks size units).flatten = units := by
  fun_induction chunks size units with
  | case1 => rfl
  | case2 first rest ih =>
    simp only [List.flatten_cons, ih, List.cons_append, List.take_append_drop]

/-- Processes requests at once, and merges the replies in the order of the requests. -/
def processAll {op : Operation} (s : Settings) (batched : Batched op) (rounds : Nat)
    (requests : List op.Request) : Call op.Reply := do
  let replies ← Call.all (requests.map (process s batched rounds))
  return replies.foldl batched.merge batched.nothing

namespace BatchRead

/-- The most keys of a request. -/
def chunkSize : Nat := 100

/-- The requests of a read, one for each chunk of its keys. -/
def requests (b : BatchRead) : List BatchGet.Request :=
  (chunks chunkSize b.keys).map fun keys =>
    { tables := .ofList [(b.table, { b.template with keys })], reportCapacity := b.reportCapacity }

/-- Reads the items at all keys. -/
def run (b : BatchRead) (s : Settings) (rounds : Nat) : Call BatchGet.Reply := do
  Call.ofOutcome (Key.validateAll b.keys)
  processAll s Batched.get rounds b.requests

end BatchRead

namespace BatchChange

/-- The most entries of a request. -/
def chunkSize : Nat := 25

/-- The requests of a change, one for each chunk of its entries. -/
def requests (b : BatchChange) : List BatchWrite.Request :=
  (chunks chunkSize b.entries).map fun entries =>
    { tables := .ofList [(b.table, entries)]
      reportCapacity := b.reportCapacity
      reportMetrics := b.reportMetrics }

/-- Makes all changes. -/
def run (b : BatchChange) (s : Settings) (rounds : Nat) : Call BatchWrite.Reply := do
  if b.entries.isEmpty then throw (.rejected .noWrites)
  processAll s Batched.write rounds b.requests

end BatchChange

end TableClient
