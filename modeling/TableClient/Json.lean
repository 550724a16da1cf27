import TableClient.Sorted

/-! JSON values.

Objects keep their members in the order in which they were written, repetitions
included. A value read from a text may hold faults in places: where the text breaks off,
and where it is well formed but says something that cannot be held. A decoder meets them
in reading order, so that of two faults it reports the first. -/
namespace TableClient

/-- Why a place of a text holds no value. -/
inductive Json.Fault where
  /-- The text is not JSON from here on; nothing after it was read. -/
  | torn
  /-- The text is not JSON from here on, where a member's name belongs. -/
  | tornName
  /-- A number too large, a text with half a surrogate pair or a nesting too deep. -/
  | unreadable
  /-- A member whose name is such a text. -/
  | unreadableName
deriving DecidableEq

/-- A JSON value. Numbers without fraction and exponent that fit 64 bits are integers, all
others doubles. -/
inductive Json where
  | null
  | bool (value : Bool)
  | int (value : Int)
  | float (value : Float)
  | str (text : String)
  | arr (items : List Json)
  | obj (members : List (String × Json))
  | fault (why : Json.Fault)

namespace Json

instance : Inhabited Json := ⟨.null⟩

mutual
/-- Whether a value can be passed over: what cannot be held does not matter, only that the
text does not break off inside it. -/
def skippable : Json → Bool
  | .fault .torn | .fault .tornName => false
  | .arr items => skippableItems items
  | .obj members => skippableMembers members
  | _ => true

def skippableItems : List Json → Bool
  | [] => true
  | item :: rest => skippable item && skippableItems rest

def skippableMembers : List (String × Json) → Bool
  | [] => true
  | (_, value) :: rest => skippable value && skippableMembers rest
end

mutual
/-- The same value with the members of every object ascending by name; of several members
of one name the last stays. -/
def canonical : Json → Json
  | .arr items => .arr (canonicalItems items)
  | .obj members => .obj (Sorted.putAll [] (canonicalMembers members))
  | other => other

def canonicalItems : List Json → List Json
  | [] => []
  | item :: rest => canonical item :: canonicalItems rest

def canonicalMembers : List (String × Json) → List (String × Json)
  | [] => []
  | (name, value) :: rest => (name, canonical value) :: canonicalMembers rest
end

/-! ### Views -/

/-- Whether a value is null. -/
def isNull : Json → Bool
  | .null => true
  | _ => false

/-- The text of a string. -/
def text? : Json → Option String
  | .str text => some text
  | _ => none

/-- The value of a whole number that is not negative. -/
def nat? : Json → Option Nat
  | .int (.ofNat n) => some n
  | _ => none

/-- The truth value. -/
def bool? : Json → Option Bool
  | .bool b => some b
  | _ => none

/-- The items of an array. -/
def items : Json → List Json
  | .arr items => items
  | _ => []

/-- The members of an object. -/
def members : Json → List (String × Json)
  | .obj members => members
  | _ => []

/-- The value of the first member of a name. -/
def member? (name : String) (value : Json) : Option Json := value.members.lookup name

/-- The value of the first member of a name, or null. -/
def member (name : String) (value : Json) : Json := (value.member? name).getD .null

/-- An object of the members with these names, in the order of the names. -/
def pick (names : List String) (value : Json) : Json :=
  .obj (names.filterMap fun name => (value.member? name).map (name, ·))

/-- The item at a position, or null. -/
def item (position : Nat) (value : Json) : Json := value.items.getD position .null

end Json

end TableClient
