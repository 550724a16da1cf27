import TableClient.Expression.Canonical
import TableClient.Expression.Condition
import TableClient.Expression.Projection
import TableClient.Expression.Update
import TableClient.Parameters
import TableClient.Service.Failure

/-! Assembly of the expressions of a request.

All expressions of a request draw their tokens from one scope and are brought into
canonical form together, so that a name used by the condition and by the update has one
token. An expression that comes to nothing leaves its field as it was. -/
namespace TableClient

/-- One value for each expression of a request. -/
structure Expressions (α : Type) where
  projection : α
  keyCondition : α
  condition : α
  filter : α
  update : α

namespace Expressions

/-- The values in the order in which expressions are rendered. -/
def toList {α : Type} (e : Expressions α) : List α :=
  [e.projection, e.keyCondition, e.condition, e.filter, e.update]

end Expressions

/-- What the expressions of a request are to say. -/
structure ExpressionSet where
  /-- The attributes to return; repetitions do not count. -/
  projection : List Path := []
  /-- Conditions on the key, all of which hold. -/
  keyConditions : List Condition := []
  /-- Conditions of a write, all of which hold. -/
  conditions : List Condition := []
  /-- Conditions on the items to return, all of which hold. -/
  filters : List Condition := []
  updates : List UpdateAction := []

namespace ExpressionSet

/-- Renders the expressions against one scope, up to the first fault. -/
def emit (e : ExpressionSet) :
    ExceptT ExpressionFault (StateM Scope) (Expressions (Option Fragment)) := do
  let projection ← ExceptT.mk (Path.compileAll e.projection)
  let keyCondition ← ExceptT.mk (Condition.compileAll e.keyConditions)
  let condition ← ExceptT.mk (Condition.compileAll e.conditions)
  let filter ← ExceptT.mk (Condition.compileAll e.filters)
  let update ← ExceptT.mk (UpdateAction.compileAll e.updates)
  return { projection, keyCondition, condition, filter, update }

/-- Renders the expressions. -/
def compile (e : ExpressionSet) : Except ExpressionFault (Expressions (Option Fragment)) :=
  (e.emit.run.run {}).1

end ExpressionSet

namespace Parameters

/-- Sets the texts of fragments, with their tokens replaced, and leaves a field without one as
it is. -/
def setTexts (p : Parameters) (substitute : String → String) (e : Expressions (Option Fragment)) :
    Parameters :=
  let text (fragment : Option Fragment) (preset : Option String) : Option String :=
    match fragment with
    | some fragment => some (substitute fragment.text)
    | none => preset
  { p with
    projection := text e.projection p.projection
    keyCondition := text e.keyCondition p.keyCondition
    condition := text e.condition p.condition
    filter := text e.filter p.filter
    update := text e.update p.update }

/-- Sets bindings; those already there under other tokens stay. -/
def bind (p : Parameters) (bindings : Bindings) : Parameters :=
  { p with
    names := p.names.insertAll bindings.names
    values := p.values.insertAll bindings.values }

/-- An index does not take consistent reads, so the wish for one is dropped. -/
def forIndex (p : Parameters) : Parameters :=
  if p.index.isSome then { p with consistentRead := none } else p

/-- The parameters with the expressions of a set. -/
def assemble (p : Parameters) (e : ExpressionSet) : Outcome Parameters := do
  let rendered ← e.compile.mapError .expression
  let fragments := rendered.toList.filterMap id
  let form := Bindings.canonical (fragments.map Fragment.text)
    (fragments.foldl (fun bindings fragment => bindings ++ fragment.bindings) {})
  return (p.forIndex.setTexts form.substitute rendered).bind form.bindings

end Parameters

end TableClient
