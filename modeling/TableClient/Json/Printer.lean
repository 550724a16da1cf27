import TableClient.Json
import TableClient.Number.Shortest

/-! The compact text of a JSON value.

There is no space between tokens. In strings only the quote, the backslash and the
control characters are escaped. A double that is no finite number is written as null,
like a fault. -/
namespace TableClient.Json

/-- The four lower-case hexadecimal digits of a control character. -/
def controlDigits (c : Char) : String :=
  let digits := Nat.toDigits 16 c.toNat
  String.ofList (List.replicate (4 - digits.length) '0' ++ digits)

/-- How one character stands in a JSON string. -/
def escape (c : Char) : String :=
  if c = '"' then "\\\""
  else if c = '\\' then "\\\\"
  else if c = '\x08' then "\\b"
  else if c = '\x0c' then "\\f"
  else if c = '\n' then "\\n"
  else if c = '\r' then "\\r"
  else if c = '\t' then "\\t"
  else if c.toNat < 32 then "\\u" ++ controlDigits c
  else c.toString

/-- A text as a JSON string. -/
def renderString (text : String) : String :=
  "\"" ++ String.join (text.toList.map escape) ++ "\""

/-- A double as a JSON number, with a fraction even where it is zero. -/
def renderFloat (x : Float) : String :=
  match Number.Binary.ofFloat? x with
  | none => "null"
  | some _ =>
    let text := Number.decimalText x
    if text.toList.contains '.' then text else text ++ ".0"

mutual
/-- The compact text of a value. -/
def render : Json → String
  | .null => "null"
  | .bool true => "true"
  | .bool false => "false"
  | .int n => toString n
  | .float x => renderFloat x
  | .str text => renderString text
  | .arr items => "[" ++ String.intercalate "," (renderItems items) ++ "]"
  | .obj members => "\x7b" ++ String.intercalate "," (renderMembers members) ++ "\x7d"
  | .fault _ => "null"

def renderItems : List Json → List String
  | [] => []
  | item :: rest => render item :: renderItems rest

def renderMembers : List (String × Json) → List String
  | [] => []
  | (name, value) :: rest => (renderString name ++ ":" ++ render value) :: renderMembers rest
end

end TableClient.Json
