import TableClient.Json.Reader
import TableClient.KeyMap

/-! Wire forms: how a value stands in JSON and is read back.

A type that travels has one JSON form (`encode`) and a reader for it (`decode`). Readers
report the first fault in reading order; only some faults have a text. -/
namespace TableClient

/-- Why a JSON value is not the wire form of anything. -/
inductive DecodeFault where
  /-- A value of another shape is needed here, or none can be held. -/
  | shape
  /-- An attribute value without its one member. -/
  | noKey
  | unknownField (name : String) (expected : List String)
  | missingField (name : String)
  | duplicateField (name : String)
  /-- A word that is none of those expected; `alone` unless more members follow it. -/
  | unknownVariant (name : String) (expected : List String) (alone : Bool)
deriving DecidableEq

namespace DecodeFault

/-- A name between the marks that set it off in a message. -/
def marked (name : String) : String := "`" ++ name ++ "`"

/-- What was expected: one name, either of two, or one of several. -/
def expectation : List String → String
  | [] => "there are no names"
  | [a] => "expected " ++ marked a
  | [a, b] => "expected " ++ marked a ++ " or " ++ marked b
  | names => "expected one of " ++ String.intercalate ", " (names.map marked)

/-- The text of a fault that has one. -/
def message? : DecodeFault → Option String
  | .shape => none
  | .noKey => some "AttributeValue must have exactly one key"
  | .unknownField name expected =>
    some ("unknown field " ++ marked name ++ ", " ++ expectation expected)
  | .missingField name => some ("missing field " ++ marked name)
  | .duplicateField name => some ("duplicate field " ++ marked name)
  | .unknownVariant name expected _ =>
    some ("unknown variant " ++ marked name ++ ", " ++ expectation expected)

/-- The fault of the same value when it is at hand as a whole. There the number of an object's
members is known before the first is read, so that too many are the earlier fault. -/
def ofWhole : DecodeFault → DecodeFault
  | .unknownVariant _ _ false => .shape
  | fault => fault

end DecodeFault

/-- A type with a wire form. -/
class Wire (α : Type) where
  encode : α → Json
  decode : Json → Except DecodeFault α

namespace Wire
variable {α : Type}

instance : Wire String where
  encode := .str
  decode
    | .str text => .ok text
    | _ => .error .shape

instance : Wire Bool where
  encode := .bool
  decode
    | .bool b => .ok b
    | _ => .error .shape

/-- Integers of 32 bits. -/
instance : Wire Int32 where
  encode n := .int n.toInt
  decode
    | .int n =>
      if -(Number.maxSigned32 : Int) - 1 ≤ n ∧ n ≤ Number.maxSigned32 then .ok (Int32.ofInt n)
      else .error .shape
    | _ => .error .shape

/-- Doubles. One that is no finite number is written as null; integers are read as doubles. -/
instance : Wire Float where
  encode x := if x.isFinite then .float x else .null
  decode
    | .float x => .ok x
    | .int n => .ok (if n < 0 then -(Float.ofNat n.natAbs) else Float.ofNat n.natAbs)
    | _ => .error .shape

/-- Reads every item of an array, up to the first that does not read. -/
def decodeItems [Wire α] : List Json → Except DecodeFault (List α)
  | [] => .ok []
  | item :: rest => do
    let a ← decode item
    return a :: (← decodeItems rest)

instance [Wire α] : Wire (List α) where
  encode items := .arr (items.map encode)
  decode
    | .arr items => decodeItems items
    | _ => .error .shape

/-- Reads every member of an object, up to the first that does not read. -/
def decodeMembers [Wire α] : List (String × Json) → Except DecodeFault (List (String × α))
  | [] => .ok []
  | (_, .fault _) :: _ => .error .shape
  | (name, value) :: rest => do
    let a ← decode value
    return (name, a) :: (← decodeMembers rest)

instance [Wire α] : Wire (KeyMap α) where
  encode m := .obj (m.toList.map fun entry => (entry.1, encode entry.2))
  decode
    | .obj members => do return KeyMap.ofList (← decodeMembers members)
    | _ => .error .shape

/-- A pair is an array of two. -/
instance {β : Type} [Wire α] [Wire β] : Wire (α × β) where
  encode p := .arr [encode p.1, encode p.2]
  decode
    | .arr (first :: second :: rest) => do
      let a ← decode first
      let b ← decode second
      if rest.isEmpty then return (a, b) else throw .shape
    | .arr [first] => do
      let _ : α ← decode first
      throw .shape
    | _ => .error .shape

/-- Reads a value that is at hand as a whole. -/
def decodeWhole [Wire α] (value : Json) : Except DecodeFault α :=
  (decode value).mapError .ofWhole

/-- Reads a text: its value, and then that nothing follows it. -/
def decodeText [Wire α] (bytes : List UInt8) : Except DecodeFault α := do
  let (value, clean) := Json.read bytes
  let a ← decode value
  if clean then return a else throw .shape

end Wire

end TableClient
