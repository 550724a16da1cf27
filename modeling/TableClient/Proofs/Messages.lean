import TableClient.Operation
import TableClient.Proofs.RoundTrip

/-! Requests and replies come back from their wire form.

All that is in a request survives, so requests do. In replies stand doubles, of which the finite
ones survive (`Survives.float`) and no others (`Survives.isFinite`). A reply whose doubles are
finite therefore comes back as well (`messages_survive`). -/
namespace TableClient

/-! ### Words -/

instance : Faithful ReturnValue := Choice.faithful fun v => by cases v <;> rfl

instance : Faithful FailureReturn := Choice.faithful fun v => by cases v <;> rfl

instance : Faithful CapacityReport := Choice.faithful fun v => by cases v <;> rfl

instance : Faithful MetricsReport := Choice.faithful fun v => by cases v <;> rfl

instance : Faithful Selection := Choice.faithful fun v => by cases v <;> rfl

/-! ### Records without doubles -/

instance : Faithful GetItem.Request := Fields.faithful (by decide) fun _ => rfl

instance : Faithful PutItem.Request := Fields.faithful (by decide) fun _ => rfl

instance : Faithful UpdateItem.Request := Fields.faithful (by decide) fun _ => rfl

instance : Faithful DeleteItem.Request := Fields.faithful (by decide) fun _ => rfl

instance : Faithful Query.Request := Fields.faithful (by decide) fun _ => rfl

instance : Faithful Scan.Request := Fields.faithful (by decide) fun _ => rfl

instance : Faithful ListTables.Request := Fields.faithful (by decide) fun _ => rfl

instance : Faithful ListTables.Reply := Fields.faithful (by decide) fun _ => rfl

instance : Faithful TableKeys := Fields.faithful (by decide) fun _ => rfl

instance : Faithful BatchGet.Request := Fields.faithful (by decide) fun _ => rfl

instance : Faithful PutEntry := Fields.faithful (by decide) fun _ => rfl

instance : Faithful DeleteEntry := Fields.faithful (by decide) fun _ => rfl

instance : Faithful WriteEntry := Fields.faithful (by decide) fun _ => rfl

instance : Faithful BatchWrite.Request := Fields.faithful (by decide) fun _ => rfl

instance : Faithful TransactWrite.Check := Fields.faithful (by decide) fun _ => rfl

instance : Faithful TransactWrite.Put := Fields.faithful (by decide) fun _ => rfl

instance : Faithful TransactWrite.Delete := Fields.faithful (by decide) fun _ => rfl

instance : Faithful TransactWrite.Update := Fields.faithful (by decide) fun _ => rfl

instance : Faithful TransactWrite.Entry := Fields.faithful (by decide) fun _ => rfl

instance : Faithful TransactWrite.Request := Fields.faithful (by decide) fun _ => rfl

instance : Faithful TransactGet.Get := Fields.faithful (by decide) fun _ => rfl

instance : Faithful TransactGet.Entry := Fields.faithful (by decide) fun _ => rfl

instance : Faithful TransactGet.Request := Fields.faithful (by decide) fun _ => rfl

instance : Faithful TransactGet.Found := Fields.faithful (by decide) fun _ => rfl

/-! ### Records with doubles -/

/-- All doubles of a capacity are finite. -/
structure Capacity.IsFinite (c : Capacity Float) : Prop where
  read : ∀ x ∈ c.read, x.isFinite
  write : ∀ x ∈ c.write, x.isFinite
  units : ∀ x ∈ c.units, x.isFinite

theorem Capacity.IsFinite.survives {c : Capacity Float} (h : c.IsFinite) : Survives c :=
  Fields.survives (by decide) rfl
    ⟨Field.optional_keeps fun x hx => .float (h.read x hx),
      Field.optional_keeps fun x hx => .float (h.write x hx),
      Field.optional_keeps fun x hx => .float (h.units x hx), trivial⟩

/-- All doubles of a report are finite, those of its table and indexes as well. -/
structure ConsumedCapacity.IsFinite (c : ConsumedCapacity Float) : Prop where
  units : ∀ x ∈ c.units, x.isFinite
  readUnits : ∀ x ∈ c.readUnits, x.isFinite
  writeUnits : ∀ x ∈ c.writeUnits, x.isFinite
  tableUsage : ∀ usage ∈ c.tableUsage, usage.IsFinite
  localIndexes : ∀ entry ∈ c.localIndexes.toList, entry.2.IsFinite
  globalIndexes : ∀ entry ∈ c.globalIndexes.toList, entry.2.IsFinite

theorem ConsumedCapacity.IsFinite.survives {c : ConsumedCapacity Float} (h : c.IsFinite) :
    Survives c :=
  Fields.survives (by decide) rfl
    ⟨Field.IsFaithful.keeps c.table,
      Field.optional_keeps fun x hx => .float (h.units x hx),
      Field.optional_keeps fun x hx => .float (h.readUnits x hx),
      Field.optional_keeps fun x hx => .float (h.writeUnits x hx),
      Field.optional_keeps fun usage husage => (h.tableUsage usage husage).survives,
      Field.map_keeps fun entry hentry => (h.localIndexes entry hentry).survives,
      Field.map_keeps fun entry hentry => (h.globalIndexes entry hentry).survives, trivial⟩

/-- All bounds of the size are finite. -/
def CollectionMetrics.IsFinite (m : CollectionMetrics) : Prop := ∀ x ∈ m.sizeRange, x.isFinite

theorem CollectionMetrics.IsFinite.survives {m : CollectionMetrics} (h : m.IsFinite) :
    Survives m :=
  Fields.survives (by decide) rfl
    ⟨Field.IsFaithful.keeps m.key, Field.list_keeps fun x hx => .float (h x hx), trivial⟩

/-! ### Replies

A reply is finite if all doubles of its reports are. -/

structure WriteReply.IsFinite (r : WriteReply) : Prop where
  capacity : ∀ report ∈ r.capacity, report.IsFinite
  metrics : ∀ m ∈ r.metrics, m.IsFinite

theorem WriteReply.IsFinite.survives {r : WriteReply} (h : r.IsFinite) : Survives r :=
  Fields.survives (by decide) rfl
    ⟨Field.IsFaithful.keeps r.attributes,
      Field.optional_keeps fun report hreport => (h.capacity report hreport).survives,
      Field.optional_keeps fun m hm => (h.metrics m hm).survives, trivial⟩

def GetItem.Reply.IsFinite (r : GetItem.Reply) : Prop := ∀ report ∈ r.capacity, report.IsFinite

theorem GetItem.Reply.IsFinite.survives {r : GetItem.Reply} (h : r.IsFinite) : Survives r :=
  Fields.survives (by decide) rfl
    ⟨Field.IsFaithful.keeps r.item,
      Field.optional_keeps fun report hreport => (h report hreport).survives, trivial⟩

def PageReply.IsFinite (r : PageReply) : Prop := ∀ report ∈ r.capacity, report.IsFinite

theorem PageReply.IsFinite.survives {r : PageReply} (h : r.IsFinite) : Survives r :=
  Fields.survives (by decide) rfl
    ⟨Field.IsFaithful.keeps r.items, Field.IsFaithful.keeps r.count,
      Field.IsFaithful.keeps r.scannedCount, Field.IsFaithful.keeps r.lastKey,
      Field.optional_keeps fun report hreport => (h report hreport).survives, trivial⟩

def BatchGet.Reply.IsFinite (r : BatchGet.Reply) : Prop := ∀ report ∈ r.capacity, report.IsFinite

theorem BatchGet.Reply.IsFinite.survives {r : BatchGet.Reply} (h : r.IsFinite) : Survives r :=
  Fields.survives (by decide) rfl
    ⟨Field.IsFaithful.keeps r.items, Field.IsFaithful.keeps r.unprocessed,
      Field.list_keeps fun report hreport => (h report hreport).survives, trivial⟩

structure BatchWrite.Reply.IsFinite (r : BatchWrite.Reply) : Prop where
  metrics : ∀ entry ∈ r.metrics.toList, ∀ m ∈ entry.2, m.IsFinite
  capacity : ∀ report ∈ r.capacity, report.IsFinite

theorem BatchWrite.Reply.IsFinite.survives {r : BatchWrite.Reply} (h : r.IsFinite) : Survives r :=
  Fields.survives (by decide) rfl
    ⟨Field.IsFaithful.keeps r.unprocessed,
      Field.map_keeps fun entry hentry => .list fun m hm => (h.metrics entry hentry m hm).survives,
      Field.list_keeps fun report hreport => (h.capacity report hreport).survives, trivial⟩

structure TransactWrite.Reply.IsFinite (r : TransactWrite.Reply) : Prop where
  capacity : ∀ report ∈ r.capacity, report.IsFinite
  metrics : ∀ entry ∈ r.metrics.toList, ∀ m ∈ entry.2, m.IsFinite

theorem TransactWrite.Reply.IsFinite.survives {r : TransactWrite.Reply} (h : r.IsFinite) :
    Survives r :=
  Fields.survives (by decide) rfl
    ⟨Field.list_keeps fun report hreport => (h.capacity report hreport).survives,
      Field.map_keeps fun entry hentry => .list fun m hm => (h.metrics entry hentry m hm).survives,
      trivial⟩

def TransactGet.Reply.IsFinite (r : TransactGet.Reply) : Prop :=
  ∀ report ∈ r.capacity, report.IsFinite

theorem TransactGet.Reply.IsFinite.survives {r : TransactGet.Reply} (h : r.IsFinite) :
    Survives r :=
  Fields.survives (by decide) rfl
    ⟨Field.IsFaithful.keeps r.found,
      Field.list_keeps fun report hreport => (h report hreport).survives, trivial⟩

/-! ### Operations -/

namespace Operation

/-- All doubles in the reply of an operation are finite. -/
def IsFinite : (op : Operation) → op.Reply → Prop
  | .listTables, _ => True
  | .putItem, reply | .updateItem, reply | .deleteItem, reply => WriteReply.IsFinite reply
  | .getItem, reply => GetItem.Reply.IsFinite reply
  | .query, reply | .scan, reply => PageReply.IsFinite reply
  | .batchGet, reply => BatchGet.Reply.IsFinite reply
  | .batchWrite, reply => BatchWrite.Reply.IsFinite reply
  | .transactGet, reply => TransactGet.Reply.IsFinite reply
  | .transactWrite, reply => TransactWrite.Reply.IsFinite reply

instance (op : Operation) : Faithful op.Request := by
  cases op <;> infer_instance

theorem IsFinite.survives {op : Operation} {reply : op.Reply} (h : op.IsFinite reply) :
    Survives reply := by
  cases op with
  | listTables => exact Faithful.survives reply
  | putItem | updateItem | deleteItem => exact WriteReply.IsFinite.survives h
  | getItem => exact GetItem.Reply.IsFinite.survives h
  | query | scan => exact PageReply.IsFinite.survives h
  | batchGet => exact BatchGet.Reply.IsFinite.survives h
  | batchWrite => exact BatchWrite.Reply.IsFinite.survives h
  | transactGet => exact TransactGet.Reply.IsFinite.survives h
  | transactWrite => exact TransactWrite.Reply.IsFinite.survives h

end Operation

/-- Requests come back from their wire form, replies do where their doubles are finite, and so does
all that is nested in them. -/
theorem messages_survive :
    (∀ (op : Operation) (request : op.Request), Survives request) ∧
    (∀ (op : Operation) (reply : op.Reply), op.IsFinite reply → Survives reply) ∧
    (∀ c : Capacity Float, c.IsFinite → Survives c) ∧
    (∀ c : ConsumedCapacity Float, c.IsFinite → Survives c) ∧
    (∀ m : CollectionMetrics, m.IsFinite → Survives m) ∧
    (Faithful TableKeys ∧ Faithful PutEntry ∧ Faithful DeleteEntry ∧ Faithful WriteEntry) ∧
    (Faithful TransactWrite.Check ∧ Faithful TransactWrite.Put ∧ Faithful TransactWrite.Delete ∧
      Faithful TransactWrite.Update ∧ Faithful TransactWrite.Entry) ∧
    (Faithful TransactGet.Get ∧ Faithful TransactGet.Entry ∧ Faithful TransactGet.Found) ∧
    (Faithful ReturnValue ∧ Faithful FailureReturn ∧ Faithful CapacityReport ∧
      Faithful MetricsReport ∧ Faithful Selection) ∧
    Faithful AttributeValue :=
  ⟨fun _ => Faithful.survives, fun _ _ h => h.survives, fun _ h => h.survives,
    fun _ h => h.survives, fun _ h => h.survives,
    ⟨inferInstance, inferInstance, inferInstance, inferInstance⟩,
    ⟨inferInstance, inferInstance, inferInstance, inferInstance, inferInstance⟩,
    ⟨inferInstance, inferInstance, inferInstance⟩,
    ⟨inferInstance, inferInstance, inferInstance, inferInstance, inferInstance⟩, inferInstance⟩

/-- The capacity that an index took. -/
def byDate : Capacity Float := ⟨some 0.5, none, some 0.5⟩

/-- A page without items whose capacity is reported by index. -/
def countedPage : PageReply :=
  { count := 2
    scannedCount := 3
    capacity := some
      { table := some "orders"
        units := some 1.5
        globalIndexes := .ofList [("by-date", byDate)] } }

theorem messages_survive_page :
    Operation.query.IsFinite countedPage ∧
      Wire.decode (Wire.encode countedPage) = .ok countedPage := by
  have hindex : ∀ entry ∈ (KeyMap.ofList [("by-date", byDate)]).toList, entry.2.IsFinite := by
    intro entry hentry
    obtain rfl := List.mem_singleton.1 hentry
    constructor <;> decide
  have hfinite : PageReply.IsFinite countedPage := by
    rintro _ ⟨⟩
    exact ⟨by decide, by decide, by decide, nofun, nofun, hindex⟩
  exact ⟨hfinite, (messages_survive.2.1 .query countedPage hfinite).decode_encode⟩

end TableClient
