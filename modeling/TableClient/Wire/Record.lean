import TableClient.Wire

/-! Records: objects with a fixed list of fields.

A record type is described once, by the list of its fields. The description says both how
a record is written and how it is read: fields are read in the order in which they stand
in the object, unknown ones are passed over, one that comes twice is a fault, and after
the last member the first field that is missing without a substitute is one. -/
namespace TableClient

/-- One field of a record. -/
structure Field (β : Type) where
  name : String
  /-- What stands in the object; nothing if the field is left out. -/
  write : β → Option Json
  read : Json → Except DecodeFault β
  /-- The value of a field that an object does not have. -/
  absent : Except DecodeFault β
  /-- The value of a field that an array is too short to have. -/
  beyond : Except DecodeFault β

namespace Field
variable {α : Type} [Wire α]

/-- A field that is always there. -/
def required (name : String) : Field α where
  name
  write a := some (Wire.encode a)
  read := Wire.decode
  absent := .error (.missingField name)
  beyond := .error .shape

/-- Reads null as nothing and any other value as something. -/
def readOption : Json → Except DecodeFault (Option α)
  | .null => .ok none
  | value => do return some (← Wire.decode value)

/-- A field that is left out when there is nothing. -/
def optional (name : String) : Field (Option α) where
  name
  write a := a.map Wire.encode
  read := readOption
  absent := .ok none
  beyond := .error .shape

/-- A field that is always written and may be missing. -/
def defaulted (name : String) (default : α) : Field α where
  name
  write a := some (Wire.encode a)
  read := Wire.decode
  absent := .ok default
  beyond := .ok default

/-- A collection that is left out when it is empty. -/
def unlessEmpty (name : String) (default : α) (isEmpty : α → Bool) : Field α where
  name
  write a := if isEmpty a then none else some (Wire.encode a)
  read := Wire.decode
  absent := .ok default
  beyond := .ok default

/-- A map that is left out when it is empty. -/
def map {β : Type} [Wire β] (name : String) : Field (KeyMap β) :=
  unlessEmpty name ∅ KeyMap.isEmpty

/-- A list that is left out when it is empty. -/
def list {β : Type} [Wire β] (name : String) : Field (List β) :=
  unlessEmpty name [] List.isEmpty

end Field

/-- The fields of a record in declaration order. The index is the product of their types. -/
inductive Fields : Type → Type 1 where
  | nil : Fields Unit
  | cons {β P : Type} (field : Field β) (rest : Fields P) : Fields (β × P)

namespace Fields

/-- The names in declaration order. -/
def names : {P : Type} → Fields P → List String
  | _, nil => []
  | _, cons field rest => field.name :: rest.names

/-- The members that write a record. -/
def write : {P : Type} → Fields P → P → List (String × Json)
  | _, nil, _ => []
  | _, cons field rest, p =>
    match field.write p.1 with
    | none => rest.write p.2
    | some value => (field.name, value) :: rest.write p.2

/-- What has been read of each field. -/
@[reducible] def Slots : {P : Type} → Fields P → Type
  | _, nil => Unit
  | _, @cons β _ _ rest => Option β × rest.Slots

/-- Nothing has been read. -/
def unread : {P : Type} → (fields : Fields P) → fields.Slots
  | _, nil => ()
  | _, cons _ rest => (none, rest.unread)

/-- Reads one member into the slot of its name. A name of no field is passed over. -/
def readMember : {P : Type} → (fields : Fields P) → String → Json → fields.Slots →
    Except DecodeFault fields.Slots
  | _, nil, _, value, _ => if value.skippable then .ok () else .error .shape
  | _, cons field rest, name, value, slots =>
    if name = field.name then
      match slots.1 with
      | some _ => .error (.duplicateField field.name)
      | none => do return (some (← field.read value), slots.2)
    else do return (slots.1, ← rest.readMember name value slots.2)

/-- Reads the members in their order. -/
def readMembers {P : Type} (fields : Fields P) : List (String × Json) → fields.Slots →
    Except DecodeFault fields.Slots
  | [], slots => .ok slots
  | (_, .fault .tornName) :: _, _ | (_, .fault .unreadableName) :: _, _ => .error .shape
  | (name, value) :: rest, slots => do
    fields.readMembers rest (← fields.readMember name value slots)

/-- The record of what has been read, with a substitute for each field that is missing. -/
def finish : {P : Type} → (fields : Fields P) → fields.Slots → Except DecodeFault P
  | _, nil, _ => .ok ()
  | _, cons field rest, slots => do
    let b ← match slots.1 with
      | some b => .ok b
      | none => field.absent
    return (b, ← rest.finish slots.2)

/-- Reads an array that holds the fields in declaration order. -/
def readItems : {P : Type} → Fields P → List Json → Except DecodeFault P
  | _, nil, [] => .ok ()
  | _, nil, _ :: _ => .error .shape
  | _, cons field rest, [] => do
    let b ← field.beyond
    return (b, ← rest.readItems [])
  | _, cons field rest, item :: items => do
    let b ← field.read item
    return (b, ← rest.readItems items)

/-- Reads a record. -/
def read {P : Type} (fields : Fields P) : Json → Except DecodeFault P
  | .obj members => do fields.finish (← fields.readMembers members fields.unread)
  | .arr items => fields.readItems items
  | _ => .error .shape

/-- The wire form of a type that is a record of these fields. -/
@[reducible] def wire {α P : Type} (fields : Fields P) (ofFields : P → α) (toFields : α → P) :
    Wire α where
  encode a := .obj (fields.write (toFields a))
  decode value := do return ofFields (← fields.read value)

end Fields

end TableClient
