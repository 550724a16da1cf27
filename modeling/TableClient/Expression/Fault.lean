import TableClient.Expression.Path

/-! Why an expression has no text. -/
namespace TableClient

/-- What is wrong with a path that has segments. -/
inductive PathFault where
  | emptyName
  | leadingIndex
deriving DecidableEq

/-- Why an expression has no text. -/
inductive ExpressionFault where
  | emptyPath
  | invalidPath (path : Path) (reason : PathFault)
  /-- A membership test without candidates. -/
  | noCandidates (path : Path)
deriving DecidableEq

/-- The wording of what is wrong with a path. -/
def PathFault.message : PathFault → String
  | .emptyName => "empty attribute name"
  | .leadingIndex => "path cannot start with a list index"

/-- The wording of a fault. -/
def ExpressionFault.message : ExpressionFault → String
  | .emptyPath => "attribute path must contain at least one segment"
  | .invalidPath path reason =>
    "invalid attribute path " ++ Text.quoted path.display ++ ": " ++ reason.message
  | .noCandidates path =>
    "IN condition on " ++ Text.quoted path.display ++ " needs at least one value"

end TableClient
