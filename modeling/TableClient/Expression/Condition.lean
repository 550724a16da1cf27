import TableClient.Expression.Placeholder

/-! Conditions, predicates over one item.

A condition is a tree of tests joined by conjunction, disjunction and negation. Groups
without members are absent: `prune` takes them out, and what is left renders to a text in
which every composite operand stands in parentheses. -/
namespace TableClient

/-- How two values are compared. -/
inductive Comparison where
  | eq
  | ne
  | lt
  | le
  | gt
  | ge
deriving DecidableEq

/-- The sign of a comparison. -/
def Comparison.symbol : Comparison → String
  | .eq => "="
  | .ne => "<>"
  | .lt => "<"
  | .le => "<="
  | .gt => ">"
  | .ge => ">="

/-- The comparison of a sign. -/
def Comparison.ofSymbol? (sign : String) : Option Comparison :=
  [.eq, .ne, .lt, .le, .gt, .ge].find? fun op => op.symbol = sign

/-- The functions that test an attribute. -/
inductive TestFunction where
  | attributeExists
  | attributeNotExists
  | attributeType
  | beginsWith
  | contains
deriving DecidableEq

/-- The name of a function. -/
def TestFunction.name : TestFunction → String
  | .attributeExists => "attribute_exists"
  | .attributeNotExists => "attribute_not_exists"
  | .attributeType => "attribute_type"
  | .beginsWith => "begins_with"
  | .contains => "contains"

/-- The function of a name. -/
def TestFunction.ofName? (name : String) : Option TestFunction :=
  [.attributeExists, .attributeNotExists, .attributeType, .beginsWith, .contains].find?
    fun function => function.name = name

/-- A predicate over one item. -/
inductive Condition where
  | compare (op : Comparison) (path : Path) (value : AttributeValue)
  | between (path : Path) (low high : AttributeValue)
  | isIn (path : Path) (candidates : List AttributeValue)
  | test (function : TestFunction) (path : Path) (arguments : List AttributeValue)
  | size (op : Comparison) (path : Path) (value : AttributeValue)
  | all (conditions : List Condition)
  | any (conditions : List Condition)
  | not (condition : Condition)

namespace Condition

instance : Inhabited Condition := ⟨.all []⟩

/-! ### Construction -/

/-- Equality with a value. -/
def equals (path : Path) (value : AttributeValue) : Condition := .compare .eq path value

/-- The attribute is there. -/
def exists? (path : Path) : Condition := .test .attributeExists path []

/-- The attribute is not there. -/
def missing (path : Path) : Condition := .test .attributeNotExists path []

/-- The attribute is of a type, given by its name. -/
def hasType (path : Path) (type : String) : Condition := .test .attributeType path [.text type]

/-- The attribute begins with a value. -/
def beginsWith (path : Path) (start : AttributeValue) : Condition := .test .beginsWith path [start]

/-- The attribute contains a value. -/
def contains (path : Path) (part : AttributeValue) : Condition := .test .contains path [part]

/-- The attribute does not contain a value. -/
def lacks (path : Path) (part : AttributeValue) : Condition := .not (contains path part)

/-- The conjunction of the conditions that are there. -/
def allOf (conditions : List (Option Condition)) : Condition := .all (conditions.filterMap id)

/-- The disjunction of the conditions that are there. -/
def anyOf (conditions : List (Option Condition)) : Condition := .any (conditions.filterMap id)

/-! ### Pruning -/

/-- A group of what is left of its members: nothing of none, the member of one. -/
def regroup (group : List Condition → Condition) : List Condition → Option Condition
  | [] => none
  | [only] => some only
  | several => some (group several)

mutual
/-- What is left of a condition without groups that have no members. -/
def prune : Condition → Option Condition
  | .all conditions => regroup .all (pruneList conditions)
  | .any conditions => regroup .any (pruneList conditions)
  | .not condition => (prune condition).map .not
  | leaf => some leaf

def pruneList : List Condition → List Condition
  | [] => []
  | condition :: rest =>
    match prune condition with
    | none => pruneList rest
    | some kept => kept :: pruneList rest
end

/-! ### Rendering -/

/-- Whether a condition joins or negates others. -/
def isComposite : Condition → Bool
  | .all _ | .any _ | .not _ => true
  | _ => false

/-- The text of an operand, in parentheses if the operand is composite. -/
def operand (condition : Condition) (text : String) : String :=
  if condition.isComposite then "(" ++ text ++ ")" else text

mutual
/-- Renders a condition. The path of a test draws its tokens before the values do. -/
def emit : Condition → Emit String
  | .compare op path value => do
    let p ← path.emit
    let v ← Emit.value value
    return p ++ " " ++ op.symbol ++ " " ++ v
  | .between path low high => do
    let p ← path.emit
    let l ← Emit.value low
    let h ← Emit.value high
    return p ++ " BETWEEN " ++ l ++ " AND " ++ h
  | .isIn path candidates => do
    if candidates.isEmpty then throw (.noCandidates path)
    let p ← path.emit
    let vs ← Emit.values candidates
    return p ++ " IN (" ++ String.intercalate ", " vs ++ ")"
  | .test function path arguments => do
    let p ← path.emit
    let vs ← Emit.values arguments
    return function.name ++ "(" ++ String.intercalate ", " (p :: vs) ++ ")"
  | .size op path value => do
    let p ← path.emit
    let v ← Emit.value value
    return "size(" ++ p ++ ") " ++ op.symbol ++ " " ++ v
  | .all conditions => do
    return String.intercalate " AND " (← emitOperands conditions)
  | .any conditions => do
    return String.intercalate " OR " (← emitOperands conditions)
  | .not condition => do
    return "NOT " ++ operand condition (← emit condition)

def emitOperands : List Condition → Emit (List String)
  | [] => return []
  | condition :: rest => do
    let text ← emit condition
    return operand condition text :: (← emitOperands rest)
end

/-- Renders what pruning leaves of a condition. -/
def compile (condition : Condition) (scope : Scope) :
    Except ExpressionFault (Option Fragment) × Scope :=
  match condition.prune with
  | none => (.ok none, scope)
  | some kept =>
    let (result, scope) := Emit.fragment kept.emit scope
    (result.map some, scope)

/-- Renders the conjunction of several conditions. -/
def compileAll (conditions : List Condition) (scope : Scope) :
    Except ExpressionFault (Option Fragment) × Scope :=
  (Condition.all conditions).compile scope

end Condition

end TableClient
