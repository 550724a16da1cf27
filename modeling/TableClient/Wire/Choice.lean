import TableClient.Wire

/-! Choices: types whose wire form is one of a fixed list of words. -/
namespace TableClient

/-- A type whose values are written as words. -/
class Choice (α : Type) where
  /-- The values in the order in which a message lists them. -/
  all : List α
  word : α → String

namespace Choice
variable {α : Type} [Choice α]

/-- The words in the order in which a message lists them. -/
def words (α : Type) [Choice α] : List String := (all : List α).map word

/-- The value that a word writes. -/
def ofWord? (text : String) : Option α := all.find? fun a => word a = text

/-- Reads a word as the value that it writes; `alone` unless more members follow it. -/
def decodeWord (text : String) (alone : Bool) : Except DecodeFault α :=
  match ofWord? text with
  | some a => .ok a
  | none => .error (.unknownVariant text (words α) alone)

/-- A choice is a word, or an object whose one member has the word as its name and holds
nothing. -/
instance (priority := low) : Wire α where
  encode a := .str (word a)
  decode
    | .str text => decodeWord text true
    | .obj ((_, .fault .tornName) :: _) | .obj ((_, .fault .unreadableName) :: _) => .error .shape
    | .obj ((name, value) :: rest) => do
      let a ← decodeWord name rest.isEmpty
      match value, rest with
      | .null, [] => return a
      | _, _ => throw .shape
    | _ => .error .shape

end Choice

end TableClient
