import TableClient.AttributeValue
import TableClient.Number.Shortest

/-! Doubles as numbers of an item. -/
namespace TableClient.AttributeValue

/-- A double as the number of its shortest decimal text. -/
def ofFloat (x : Float) : AttributeValue := .number (Number.decimalText x)

/-- A set of doubles. -/
def ofFloats (members : List Float) : AttributeValue :=
  .numberSet (members.map Number.decimalText)

end TableClient.AttributeValue
