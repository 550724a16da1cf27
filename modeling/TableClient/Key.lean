import TableClient.Expression.Condition
import TableClient.Service.Failure

/-! Keys of items: one attribute, or two where the items of a partition are sorted. -/
namespace TableClient.Key

/-- The most attributes of a key. -/
def mostAttributes : Nat := 2

/-- Checks that a key has attributes, and not too many. -/
def validate (key : Key) (most : Nat) : Outcome Unit :=
  if key.isEmpty then .error (.rejected .emptyKey)
  else if most < key.size then .error (.rejected (.keyTooLarge most))
  else .ok ()

/-- Checks that there are keys and that each of them can be one. -/
def validateAll (keys : List Key) : Outcome Unit := do
  if keys.isEmpty then throw (.rejected .noKeys)
  keys.forM fun key => key.validate mostAttributes

/-- The condition that an item lies in a partition. The attribute's name is taken as it is,
not read as a path. -/
def partitionCondition (key : Key) : Outcome Condition := do
  key.validate 1
  match key.toList with
  | (name, value) :: _ => return .equals ⟨[.name name]⟩ value
  | [] => throw (.rejected .emptyKey)

end TableClient.Key
