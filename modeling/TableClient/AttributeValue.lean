import TableClient.KeyMap

/-! Attribute values, what an item's attributes hold.

A value is a text, a number, bytes, a set of one of these, a truth value, nothing, a list or
a map. Numbers are kept as the text that writes them. A set is kept as the list of its
members; `sameAs` compares values without regard to the order and repetition of set
members, at any depth. -/
namespace TableClient

/-- A sequence of bytes. -/
abbrev Bytes := List UInt8

/-- The value of an attribute. -/
inductive AttributeValue where
  | text (value : String)
  | number (digits : String)
  | binary (bytes : Bytes)
  | textSet (members : List String)
  | numberSet (members : List String)
  | binarySet (members : List Bytes)
  | bool (value : Bool)
  | null (value : Bool)
  | list (items : List AttributeValue)
  | map (entries : KeyMap AttributeValue)

/-- An item, or a part of one: attributes by name. -/
abbrev Item := KeyMap AttributeValue

/-- The attributes that identify an item. -/
abbrev Key := KeyMap AttributeValue

namespace AttributeValue

instance : Inhabited AttributeValue := ⟨.null true⟩

/-! ### Equality -/

mutual
/-- Equality of values is decided by structure. -/
def decideEq : (a b : AttributeValue) → Decidable (a = b)
  | .text s, .text t => decidable_of_iff (s = t) (by simp)
  | .number s, .number t => decidable_of_iff (s = t) (by simp)
  | .binary s, .binary t => decidable_of_iff (s = t) (by simp)
  | .textSet s, .textSet t => decidable_of_iff (s = t) (by simp)
  | .numberSet s, .numberSet t => decidable_of_iff (s = t) (by simp)
  | .binarySet s, .binarySet t => decidable_of_iff (s = t) (by simp)
  | .bool s, .bool t => decidable_of_iff (s = t) (by simp)
  | .null s, .null t => decidable_of_iff (s = t) (by simp)
  | .list s, .list t => @decidable_of_iff _ (s = t) (by simp) (decideEqList s t)
  | .map s, .map t => @decidable_of_iff _ (s = t) (by simp) (decideEqMap s t)
  | .text _, .number _ | .text _, .binary _ | .text _, .textSet _ | .text _, .numberSet _
  | .text _, .binarySet _ | .text _, .bool _ | .text _, .null _ | .text _, .list _
  | .text _, .map _ | .number _, .text _ | .number _, .binary _ | .number _, .textSet _
  | .number _, .numberSet _ | .number _, .binarySet _ | .number _, .bool _
  | .number _, .null _ | .number _, .list _ | .number _, .map _ | .binary _, .text _
  | .binary _, .number _ | .binary _, .textSet _ | .binary _, .numberSet _
  | .binary _, .binarySet _ | .binary _, .bool _ | .binary _, .null _ | .binary _, .list _
  | .binary _, .map _ | .textSet _, .text _ | .textSet _, .number _ | .textSet _, .binary _
  | .textSet _, .numberSet _ | .textSet _, .binarySet _ | .textSet _, .bool _
  | .textSet _, .null _ | .textSet _, .list _ | .textSet _, .map _ | .numberSet _, .text _
  | .numberSet _, .number _ | .numberSet _, .binary _ | .numberSet _, .textSet _
  | .numberSet _, .binarySet _ | .numberSet _, .bool _ | .numberSet _, .null _
  | .numberSet _, .list _ | .numberSet _, .map _ | .binarySet _, .text _
  | .binarySet _, .number _ | .binarySet _, .binary _ | .binarySet _, .textSet _
  | .binarySet _, .numberSet _ | .binarySet _, .bool _ | .binarySet _, .null _
  | .binarySet _, .list _ | .binarySet _, .map _ | .bool _, .text _ | .bool _, .number _
  | .bool _, .binary _ | .bool _, .textSet _ | .bool _, .numberSet _ | .bool _, .binarySet _
  | .bool _, .null _ | .bool _, .list _ | .bool _, .map _ | .null _, .text _
  | .null _, .number _ | .null _, .binary _ | .null _, .textSet _ | .null _, .numberSet _
  | .null _, .binarySet _ | .null _, .bool _ | .null _, .list _ | .null _, .map _
  | .list _, .text _ | .list _, .number _ | .list _, .binary _ | .list _, .textSet _
  | .list _, .numberSet _ | .list _, .binarySet _ | .list _, .bool _ | .list _, .null _
  | .list _, .map _ | .map _, .text _ | .map _, .number _ | .map _, .binary _
  | .map _, .textSet _ | .map _, .numberSet _ | .map _, .binarySet _ | .map _, .bool _
  | .map _, .null _ | .map _, .list _ => isFalse (by simp)

def decideEqList : (a b : List AttributeValue) → Decidable (a = b)
  | [], [] => isTrue rfl
  | [], _ :: _ => isFalse (by simp)
  | _ :: _, [] => isFalse (by simp)
  | a :: r, b :: q =>
    match decideEq a b, decideEqList r q with
    | isTrue h, isTrue h' => isTrue (by rw [h, h'])
    | isFalse h, _ => isFalse (by simp [h])
    | _, isFalse h => isFalse (by simp [h])

def decideEqMap : (a b : KeyMap AttributeValue) → Decidable (a = b)
  | ⟨ks, v⟩, ⟨ks', v'⟩ => KeyMap.decideEq ⟨ks, v⟩ ⟨ks', v'⟩ fun i j => decideEq (v i) (v' j)
end

instance : DecidableEq AttributeValue := decideEq

/-! ### Views -/

/-- The text of a text value. -/
def text? : AttributeValue → Option String
  | .text s => some s
  | _ => none

/-- The digits of a number. -/
def number? : AttributeValue → Option String
  | .number n => some n
  | _ => none

/-- The items of a list. -/
def list? : AttributeValue → Option (List AttributeValue)
  | .list items => some items
  | _ => none

/-- Whether the value is a set without members. -/
def isEmptySet : AttributeValue → Bool
  | .textSet members | .numberSet members => members.isEmpty
  | .binarySet members => members.isEmpty
  | _ => false

/-! ### Sameness -/

mutual
/-- The value with the members of every set in ascending order, each once. -/
def normalized : AttributeValue → AttributeValue
  | .textSet members => .textSet (Sorted.ofList members)
  | .numberSet members => .numberSet (Sorted.ofList members)
  | .binarySet members => .binarySet (Sorted.ofList members)
  | .list items => .list (normalizedList items)
  | .map entries => .map (normalizedMap entries)
  | other => other

def normalizedList : List AttributeValue → List AttributeValue
  | [] => []
  | item :: rest => normalized item :: normalizedList rest

def normalizedMap : KeyMap AttributeValue → KeyMap AttributeValue
  | ⟨keys, value⟩ => ⟨keys, fun i => normalized (value i)⟩
end

/-- Whether two values are equal but for the order and repetition of set members. -/
def sameAs (a b : AttributeValue) : Bool := a.normalized = b.normalized

/-! ### Construction -/

/-- A whole number. -/
def ofInt (n : Int) : AttributeValue := .number (toString n)

end AttributeValue

end TableClient
