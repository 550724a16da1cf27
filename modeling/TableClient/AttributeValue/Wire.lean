import TableClient.AttributeValue
import TableClient.Base64
import TableClient.Wire

/-! The wire form of attribute values.

A value is an object with one member, whose name says what the value is. Bytes are
written in base64. -/
namespace TableClient.AttributeValue

/-- The names of the member, in the order in which a message lists them. -/
def tags : List String := ["S", "N", "B", "SS", "NS", "BS", "BOOL", "NULL", "L", "M"]

/-- The JSON of a byte sequence. -/
def encodeBytes (bytes : Bytes) : Json := .str (Base64.encode bytes)

mutual
/-- The JSON of a value. -/
def encode : AttributeValue → Json
  | .text s => .obj [("S", .str s)]
  | .number n => .obj [("N", .str n)]
  | .binary bytes => .obj [("B", encodeBytes bytes)]
  | .textSet members => .obj [("SS", .arr (members.map Json.str))]
  | .numberSet members => .obj [("NS", .arr (members.map Json.str))]
  | .binarySet members => .obj [("BS", .arr (members.map encodeBytes))]
  | .bool b => .obj [("BOOL", .bool b)]
  | .null b => .obj [("NULL", .bool b)]
  | .list items => .obj [("L", .arr (encodeList items))]
  | .map entries => .obj [("M", .obj (encodeMap entries))]

def encodeList : List AttributeValue → List Json
  | [] => []
  | item :: rest => encode item :: encodeList rest

def encodeMap : KeyMap AttributeValue → List (String × Json)
  | ⟨keys, value⟩ => keys.names.zip (List.ofFn fun i => encode (value i))
end

/-- Reads bytes from their base64 text. -/
def decodeBytes : Json → Except DecodeFault Bytes
  | .str written =>
    match Base64.decode? written with
    | some bytes => .ok bytes
    | none => .error .shape
  | _ => .error .shape

/-- Reads a list of byte sequences. -/
def decodeBytesItems : List Json → Except DecodeFault (List Bytes)
  | [] => .ok []
  | item :: rest => do
    let bytes ← decodeBytes item
    return bytes :: (← decodeBytesItems rest)

/-- A value that was the only member, or none if others follow. -/
def only (rest : List (String × Json)) (value : AttributeValue) :
    Except DecodeFault AttributeValue :=
  if rest.isEmpty then .ok value else .error .shape

mutual
/-- Reads a value. The member's name is looked at before what it holds. -/
def decode : Json → Except DecodeFault AttributeValue
  | .obj [] => .error .noKey
  | .obj ((_, .fault .tornName) :: _) | .obj ((_, .fault .unreadableName) :: _) => .error .shape
  | .obj ((name, value) :: rest) =>
    if name = "S" then do only rest (.text (← Wire.decode value))
    else if name = "N" then do only rest (.number (← Wire.decode value))
    else if name = "B" then do only rest (.binary (← decodeBytes value))
    else if name = "SS" then do only rest (.textSet (← Wire.decode value))
    else if name = "NS" then do only rest (.numberSet (← Wire.decode value))
    else if name = "BS" then
      match value with
      | .arr items => do only rest (.binarySet (← decodeBytesItems items))
      | _ => .error .shape
    else if name = "BOOL" then do only rest (.bool (← Wire.decode value))
    else if name = "NULL" then do only rest (.null (← Wire.decode value))
    else if name = "L" then
      match value with
      | .arr items => do only rest (.list (← decodeList items))
      | _ => .error .shape
    else if name = "M" then
      match value with
      | .obj members => do only rest (.map (KeyMap.ofList (← decodeMembers members)))
      | _ => .error .shape
    else .error (.unknownField name tags)
  | _ => .error .shape

def decodeList : List Json → Except DecodeFault (List AttributeValue)
  | [] => .ok []
  | item :: rest => do
    let a ← decode item
    return a :: (← decodeList rest)

def decodeMembers : List (String × Json) → Except DecodeFault (List (String × AttributeValue))
  | [] => .ok []
  | (name, value) :: rest => do
    let a ← decode value
    return (name, a) :: (← decodeMembers rest)
end

instance : Wire AttributeValue := ⟨encode, decode⟩

end TableClient.AttributeValue
