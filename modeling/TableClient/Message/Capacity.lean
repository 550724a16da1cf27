import TableClient.Wire.Record

/-! Reports on consumed capacity and their sums.

The reports of several calls are added up: units are summed where any report has them,
and everything else is what the first report says. Units are of any type with an
addition and a zero. -/
namespace TableClient

/-- Capacity units of a table or an index. -/
structure Capacity (υ : Type) where
  read : Option υ
  write : Option υ
  units : Option υ

/-- What a call consumed. -/
structure ConsumedCapacity (υ : Type) where
  table : Option String := none
  units : Option υ := none
  readUnits : Option υ := none
  writeUnits : Option υ := none
  tableUsage : Option (Capacity υ) := none
  localIndexes : KeyMap (Capacity υ) := ∅
  globalIndexes : KeyMap (Capacity υ) := ∅

section Wire
variable {υ : Type} [Wire υ]

instance : Wire (Capacity υ) :=
  Fields.wire
    (.cons (.optional "ReadCapacityUnits") <|
      .cons (.optional "WriteCapacityUnits") <|
      .cons (.optional "CapacityUnits") .nil)
    (fun (read, write, units, ()) => ⟨read, write, units⟩)
    (fun c => (c.read, c.write, c.units, ()))

instance : Wire (ConsumedCapacity υ) :=
  Fields.wire
    (.cons (.optional "TableName") <|
      .cons (.optional "CapacityUnits") <|
      .cons (.optional "ReadCapacityUnits") <|
      .cons (.optional "WriteCapacityUnits") <|
      .cons (.optional "Table") <|
      .cons (.map "LocalSecondaryIndexes") <|
      .cons (.map "GlobalSecondaryIndexes") .nil)
    (fun (table, units, readUnits, writeUnits, tableUsage, localIndexes, globalIndexes, ()) =>
      ⟨table, units, readUnits, writeUnits, tableUsage, localIndexes, globalIndexes⟩)
    (fun c => (c.table, c.units, c.readUnits, c.writeUnits, c.tableUsage, c.localIndexes,
      c.globalIndexes, ()))

end Wire

namespace ConsumedCapacity
variable {υ : Type} [Add υ] [Zero υ]

/-- The sum of units, where either is there; one that is missing counts as zero. -/
def addUnits : Option υ → Option υ → Option υ
  | none, none => none
  | a, b => some (a.getD 0 + b.getD 0)

/-- Adds the units of a later report to one. -/
def add (first later : ConsumedCapacity υ) : ConsumedCapacity υ :=
  { first with
    units := addUnits first.units later.units
    readUnits := addUnits first.readUnits later.readUnits
    writeUnits := addUnits first.writeUnits later.writeUnits }

/-- Adds up reports that may be missing. -/
def addReport :
    Option (ConsumedCapacity υ) → Option (ConsumedCapacity υ) → Option (ConsumedCapacity υ)
  | total, none => total
  | none, some report => some report
  | some total, some report => some (total.add report)

/-- Adds a report to the first of the same table, or to the end if its table has none. -/
def addTable (report : ConsumedCapacity υ) : List (ConsumedCapacity υ) → List (ConsumedCapacity υ)
  | [] => [report]
  | total :: rest =>
    if total.table = report.table then total.add report :: rest
    else total :: addTable report rest

/-- Adds reports table by table. -/
def addTables (totals reports : List (ConsumedCapacity υ)) : List (ConsumedCapacity υ) :=
  reports.foldl (fun totals report => addTable report totals) totals

end ConsumedCapacity

end TableClient
