import TableClient.Expression.Placeholder

/-! Projections, the attributes that a read returns. A projection is a list of paths in which
each path counts once. -/
namespace TableClient.Path

/-- Renders paths, in order. -/
def emitAll : List Path → Emit (List String)
  | [] => return []
  | path :: rest => do
    let text ← path.emit
    return text :: (← emitAll rest)

/-- Renders a projection as an expression of its own; nothing if there are no paths. -/
def compileAll (paths : List Path) (scope : Scope) :
    Except ExpressionFault (Option Fragment) × Scope :=
  match paths.eraseDups with
  | [] => (.ok none, scope)
  | distinct =>
    Emit.fragment? (do return some (String.intercalate ", " (← emitAll distinct))) scope

end TableClient.Path
