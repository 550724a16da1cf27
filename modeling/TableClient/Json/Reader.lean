import TableClient.Json.Number
import TableClient.Text.Utf8

/-! Reading a JSON text.

The reader works on bytes and never fails: what it cannot read becomes a fault at its
place in the value. Each step consumes a byte at least, so a budget of one step per byte
always suffices. -/
namespace TableClient.Json

/-- The byte of an ASCII character. -/
def ascii (c : Char) : UInt8 := UInt8.ofNat c.toNat

/-- Whether a byte is JSON white space. -/
def isSpace (b : UInt8) : Bool := b = 0x20 || b = 0x09 || b = 0x0A || b = 0x0D

/-- The bytes after any white space. -/
def skipSpace (bytes : List UInt8) : List UInt8 := bytes.dropWhile isSpace

/-- The bytes after a word, if they begin with it. -/
def afterWord (word : String) (bytes : List UInt8) : Option (List UInt8) :=
  let prefixBytes := Text.toUtf8 word
  if prefixBytes.isPrefixOf bytes then some (bytes.drop prefixBytes.length) else none

/-- The value of a decimal digit. -/
def digit? (b : UInt8) : Option Nat :=
  if 0x30 ≤ b ∧ b ≤ 0x39 then some (b.toNat - 0x30) else none

/-- A run of digits and the bytes after it. -/
def spanDigits : List UInt8 → List Nat × List UInt8
  | [] => ([], [])
  | b :: rest =>
    match digit? b with
    | none => ([], b :: rest)
    | some d =>
      let (digits, rest) := spanDigits rest
      (d :: digits, rest)

/-! ### Strings -/

/-- The value of a hexadecimal digit. -/
def hexValue? (b : UInt8) : Option Nat :=
  let n := b.toNat
  if 0x30 ≤ n ∧ n ≤ 0x39 then some (n - 0x30)
  else if 0x41 ≤ n ∧ n ≤ 0x46 then some (n - 0x37)
  else if 0x61 ≤ n ∧ n ≤ 0x66 then some (n - 0x57)
  else none

/-- The value of four hexadecimal digits. -/
def hexQuad? (a b c d : UInt8) : Option Nat := do
  return (((← hexValue? a) * 16 + (← hexValue? b)) * 16 + (← hexValue? c)) * 16 + (← hexValue? d)

/-- The character that a one-letter escape writes. -/
def simpleEscape? (b : UInt8) : Option Char :=
  if b = ascii '"' then some '"'
  else if b = ascii '\\' then some '\\'
  else if b = ascii '/' then some '/'
  else if b = ascii 'b' then some '\x08'
  else if b = ascii 'f' then some '\x0c'
  else if b = ascii 'n' then some '\n'
  else if b = ascii 'r' then some '\r'
  else if b = ascii 't' then some '\t'
  else none

/-- A character's UTF-8 bytes before what was read after it. -/
def withChar (c : Char) (read : Option (Option (List UInt8) × List UInt8)) :
    Option (Option (List UInt8) × List UInt8) :=
  read.map fun (content, rest) => (content.map (Text.toUtf8 c.toString ++ ·), rest)

/-- What was read, without a content that can be held. -/
def withoutContent (read : Option (Option (List UInt8) × List UInt8)) :
    Option (Option (List UInt8) × List UInt8) :=
  read.map fun (_, rest) => (none, rest)

/-- Whether a code unit is the first half of a surrogate pair. -/
def isHighSurrogate (n : Nat) : Bool := 0xD800 ≤ n && n < 0xDC00

/-- Whether a code unit is the second half of a surrogate pair. -/
def isLowSurrogate (n : Nat) : Bool := 0xDC00 ≤ n && n < 0xE000

/-- Reads a string from after its opening quote: the bytes it stands for, unless it holds
half a surrogate pair, and the bytes after its closing quote. `none` if the text breaks
off. -/
def readString : List UInt8 → Option (Option (List UInt8) × List UInt8)
  | [] => none
  | b :: rest =>
    if b = ascii '"' then some (some [], rest)
    else if b < 0x20 then none
    else if b ≠ ascii '\\' then
      (readString rest).map fun (content, rest) => (content.map (b :: ·), rest)
    else
      match rest with
      | [] => none
      | e :: rest =>
        if e ≠ ascii 'u' then
          match simpleEscape? e with
          | none => none
          | some c => withChar c (readString rest)
        else
          match rest with
          | h₁ :: h₂ :: h₃ :: h₄ :: rest =>
            match hexQuad? h₁ h₂ h₃ h₄ with
            | none => none
            | some unit =>
              if isLowSurrogate unit then withoutContent (readString rest)
              else if isHighSurrogate unit then
                match rest with
                | s :: u :: l₁ :: l₂ :: l₃ :: l₄ :: rest' =>
                  if s = ascii '\\' ∧ u = ascii 'u' then
                    match hexQuad? l₁ l₂ l₃ l₄ with
                    | none => none
                    | some low =>
                      if isLowSurrogate low then
                        withChar (Char.ofNat (0x10000 + (unit - 0xD800) * 0x400 + (low - 0xDC00)))
                          (readString rest')
                      else withoutContent (readString rest')
                  else withoutContent (readString (s :: u :: l₁ :: l₂ :: l₃ :: l₄ :: rest'))
                | short => withoutContent (readString short)
              else withChar (Char.ofNat unit) (readString rest)
          | _ => none
termination_by bytes => bytes.length
decreasing_by all_goals simp_all <;> omega

/-- Reads a string from after its opening quote; the text is missing if the bytes are none. -/
def readText (bytes : List UInt8) : Option (Option String × List UInt8) :=
  (readString bytes).map fun (content, rest) => (content.bind Text.ofUtf8?, rest)

/-! ### Numbers -/

/-- Reads an exponent from after its mark. -/
def readExponent (bytes : List UInt8) : Option (Int × List UInt8) :=
  let (negative, rest) := match bytes with
    | b :: rest =>
      if b = ascii '-' then (true, rest)
      else if b = ascii '+' then (false, rest)
      else (false, bytes)
    | [] => (false, [])
  match spanDigits rest with
  | ([], _) => none
  | (digits, rest) =>
    let n : Nat := digits.foldl (fun acc d => acc * 10 + d) 0
    some (if negative then -(n : Int) else n, rest)

/-- Reads a number from after its sign. A zero is followed by no further digit. -/
def readNumber (negative : Bool) (bytes : List UInt8) : Option (Json × List UInt8) :=
  match spanDigits bytes with
  | ([], _) => none
  | (0 :: _ :: _, _) => none
  | (digits, rest) => do
    let (fraction, rest) ← match rest with
      | b :: after =>
        if b = ascii '.' then
          match spanDigits after with
          | ([], _) => none
          | (fraction, rest) => some (some fraction, rest)
        else some (none, rest)
      | [] => some (none, rest)
    let (exponent, rest) ← match rest with
      | b :: after =>
        if b = ascii 'e' || b = ascii 'E' then
          (readExponent after).map fun (e, rest) => (some e, rest)
        else some (none, rest)
      | [] => some (none, rest)
    match fraction, exponent with
    | none, none => return (ofWhole negative digits, rest)
    | _, _ => return (ofDecimal negative digits (fraction.getD []) (exponent.getD 0), rest)

/-! ### Values -/

/-- How deep arrays and objects may be nested. -/
def depthLimit : Nat := 127

/-- A value that stands inside `depth` others: one too many cannot be held. -/
def held (depth : Nat) (value : Json) : Json :=
  if depth < depthLimit then value
  else if value.skippable then .fault .unreadable
  else .fault .torn

mutual
/-- Reads one value. The bytes after it are missing if the text breaks off inside it. -/
def readValue (depth : Nat) : Nat → List UInt8 → Json × Option (List UInt8)
  | 0, _ => (.fault .torn, none)
  | budget + 1, bytes =>
    match skipSpace bytes with
    | [] => (.fault .torn, none)
    | b :: rest =>
      if b = ascii '"' then
        match readText rest with
        | none => (.fault .torn, none)
        | some (some text, rest) => (.str text, some rest)
        | some (none, rest) => (.fault .unreadable, some rest)
      else if b = ascii '[' then
        match skipSpace rest with
        | c :: rest' =>
          if c = ascii ']' then (held depth (.arr []), some rest')
          else
            let (items, rest) := readItems (depth + 1) budget (c :: rest')
            (held depth (.arr items), rest)
        | [] => (held depth (.arr [.fault .torn]), none)
      else if b = ascii '\x7b' then
        match skipSpace rest with
        | c :: rest' =>
          if c = ascii '\x7d' then (held depth (.obj []), some rest')
          else
            let (members, rest) := readMembers (depth + 1) budget (c :: rest')
            (held depth (.obj members), rest)
        | [] => (held depth (.obj [("", .fault .tornName)]), none)
      else
        let word (text : String) (value : Json) : Json × Option (List UInt8) :=
          match afterWord text (b :: rest) with
          | some rest => (value, some rest)
          | none => (.fault .torn, none)
        if b = ascii 'n' then word "null" .null
        else if b = ascii 't' then word "true" (.bool true)
        else if b = ascii 'f' then word "false" (.bool false)
        else
          let number := if b = ascii '-' then readNumber true rest else readNumber false (b :: rest)
          match number with
          | none => (.fault .torn, none)
          | some (value, rest) => (value, some rest)

/-- Reads the items of an array up to its closing bracket. -/
def readItems (depth : Nat) : Nat → List UInt8 → List Json × Option (List UInt8)
  | 0, _ => ([.fault .torn], none)
  | budget + 1, bytes =>
    match readValue depth budget bytes with
    | (item, none) => ([item], none)
    | (item, some rest) =>
      match skipSpace rest with
      | c :: rest =>
        if c = ascii ']' then ([item], some rest)
        else if c = ascii ',' then
          let (items, rest) := readItems depth budget rest
          (item :: items, rest)
        else ([item, .fault .torn], none)
      | [] => ([item, .fault .torn], none)

/-- Reads the members of an object up to its closing brace. -/
def readMembers (depth : Nat) : Nat → List UInt8 → List (String × Json) × Option (List UInt8)
  | 0, _ => ([("", .fault .tornName)], none)
  | budget + 1, bytes =>
    match skipSpace bytes with
    | [] => ([("", .fault .tornName)], none)
    | q :: rest =>
      if q ≠ ascii '"' then ([("", .fault .tornName)], none)
      else
        match readText rest with
        | none => ([("", .fault .tornName)], none)
        | some (name, rest) =>
          let entry (value : Json) : String × Json :=
            match name with
            | some name => (name, value)
            | none => ("", .fault (if value.skippable then .unreadableName else .tornName))
          match skipSpace rest with
          | [] => ([entry (.fault .torn)], none)
          | colon :: rest =>
            if colon ≠ ascii ':' then ([entry (.fault .torn)], none)
            else
              match readValue depth budget rest with
              | (value, none) => ([entry value], none)
              | (value, some rest) =>
                match skipSpace rest with
                | c :: rest =>
                  if c = ascii '\x7d' then ([entry value], some rest)
                  else if c = ascii ',' then
                    let (members, rest) := readMembers depth budget rest
                    (entry value :: members, rest)
                  else ([entry value, ("", .fault .tornName)], none)
                | [] => ([entry value, ("", .fault .tornName)], none)
end

/-- The value of a text, and whether nothing but white space follows it. -/
def read (bytes : List UInt8) : Json × Bool :=
  match readValue 0 (2 * bytes.length + 2) bytes with
  | (value, none) => (value, false)
  | (value, some rest) => (value, (skipSpace rest).isEmpty)

end TableClient.Json
