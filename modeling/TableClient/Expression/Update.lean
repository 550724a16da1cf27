import TableClient.Expression.Placeholder

/-! Update actions, changes to one item.

The actions of an update stand in four clauses, always in the same order; within a clause
they keep their order. An action that changes nothing, such as the addition of an empty
set, is left out. -/
namespace TableClient

/-- The clauses of an update expression. -/
inductive Clause where
  | set
  | add
  | remove
  | delete
deriving DecidableEq

namespace Clause

/-- The word that opens a clause. -/
def keyword : Clause → String
  | .set => "SET"
  | .add => "ADD"
  | .remove => "REMOVE"
  | .delete => "DELETE"

/-- The clauses in the order in which they stand. -/
def all : List Clause := [.set, .add, .remove, .delete]

end Clause

/-- One change to an item. -/
inductive UpdateAction where
  | set (path : Path) (value : AttributeValue)
  | setIfMissing (path : Path) (value : AttributeValue)
  /-- Adds to a number that counts from zero. -/
  | increment (path : Path) (delta : AttributeValue)
  | decrement (path : Path) (delta : AttributeValue)
  /-- Adds to the end of a list that starts empty. -/
  | append (path : Path) (items : List AttributeValue)
  | prepend (path : Path) (items : List AttributeValue)
  /-- Adds to a number, or members to a set. -/
  | add (path : Path) (value : AttributeValue)
  | remove (path : Path)
  /-- Takes members out of a set. -/
  | deleteFrom (path : Path) (members : AttributeValue)
deriving DecidableEq

namespace UpdateAction

/-- The clause of an action. -/
def clause : UpdateAction → Clause
  | .set .. | .setIfMissing .. | .increment .. | .decrement .. | .append .. | .prepend .. => .set
  | .add .. => .add
  | .remove _ => .remove
  | .deleteFrom .. => .delete

/-- Renders a step away from a number that counts from zero. -/
def emitStep (path : Path) (sign : String) (delta : AttributeValue) : Emit String := do
  let p ← path.emit
  let zero ← Emit.value (.number "0")
  let d ← Emit.value delta
  return p ++ " = if_not_exists(" ++ p ++ ", " ++ zero ++ ") " ++ sign ++ " " ++ d

/-- Renders an action without the word of its clause; nothing for one that changes nothing. -/
def emit : UpdateAction → Emit (Option String)
  | .set path value => do
    let p ← path.emit
    let v ← Emit.value value
    return some (p ++ " = " ++ v)
  | .setIfMissing path value => do
    let p ← path.emit
    let v ← Emit.value value
    return some (p ++ " = if_not_exists(" ++ p ++ ", " ++ v ++ ")")
  | .increment path delta => do return some (← emitStep path "+" delta)
  | .decrement path delta => do return some (← emitStep path "-" delta)
  | .append path items => do
    if items.isEmpty then return none
    let p ← path.emit
    let start ← Emit.value (.list [])
    let added ← Emit.value (.list items)
    let old := "if_not_exists(" ++ p ++ ", " ++ start ++ ")"
    return some (p ++ " = list_append(" ++ old ++ ", " ++ added ++ ")")
  | .prepend path items => do
    if items.isEmpty then return none
    let p ← path.emit
    let added ← Emit.value (.list items)
    let start ← Emit.value (.list [])
    let old := "if_not_exists(" ++ p ++ ", " ++ start ++ ")"
    return some (p ++ " = list_append(" ++ added ++ ", " ++ old ++ ")")
  | .add path value | .deleteFrom path value => do
    if value.isEmptySet then return none
    let p ← path.emit
    let v ← Emit.value value
    return some (p ++ " " ++ v)
  | .remove path => do return some (← path.emit)

/-- Renders the actions that change something, in order. -/
def emitAll : List UpdateAction → Emit (List String)
  | [] => return []
  | action :: rest => do
    match ← action.emit with
    | none => emitAll rest
    | some text => return text :: (← emitAll rest)

/-- Renders the clauses that have an action. -/
def emitClauses (actions : List UpdateAction) : List Clause → Emit (List String)
  | [] => return []
  | clause :: rest => do
    let texts ← emitAll (actions.filter fun action => action.clause = clause)
    let later ← emitClauses actions rest
    if texts.isEmpty then return later
    return (clause.keyword ++ " " ++ String.intercalate ", " texts) :: later

/-- Renders an update; nothing if no action changes anything. -/
def emitUpdate (actions : List UpdateAction) : Emit (Option String) := do
  let clauses ← emitClauses actions Clause.all
  return if clauses.isEmpty then none else some (String.intercalate " " clauses)

/-- Renders an update as an expression of its own. -/
def compileAll (actions : List UpdateAction) (scope : Scope) :
    Except ExpressionFault (Option Fragment) × Scope :=
  Emit.fragment? (emitUpdate actions) scope

end UpdateAction

end TableClient
