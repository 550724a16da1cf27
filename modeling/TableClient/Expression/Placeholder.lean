import TableClient.AttributeValue
import TableClient.Expression.Fault
import TableClient.Expression.Token

/-! Placeholders: the tokens that an expression uses for its names and values.

Expressions of one request draw their tokens from one scope, so that no token is bound
twice. Rendering an expression records the bindings it makes; if it fails, the tokens it
drew stay drawn. -/
namespace TableClient

/-- How many tokens have been drawn. -/
structure Scope where
  names : Nat := 0
  values : Nat := 0
deriving DecidableEq

/-- What tokens stand for, in the order in which they were bound. -/
structure Bindings where
  names : List (String × String) := []
  values : List (String × AttributeValue) := []
deriving DecidableEq

namespace Bindings

/-- Whether nothing is bound. -/
def isEmpty (b : Bindings) : Bool := b.names.isEmpty && b.values.isEmpty

/-- The bindings of both, in order. -/
def append (a b : Bindings) : Bindings := ⟨a.names ++ b.names, a.values ++ b.values⟩

instance : Append Bindings := ⟨append⟩

/-- The names by token. -/
def nameMap (b : Bindings) : KeyMap String := KeyMap.ofList b.names

/-- The values by token. -/
def valueMap (b : Bindings) : KeyMap AttributeValue := KeyMap.ofList b.values

end Bindings

/-- An expression text with the bindings of its tokens. -/
structure Fragment where
  text : String
  bindings : Bindings
deriving DecidableEq

/-- The state of rendering one expression. -/
structure Emitter where
  scope : Scope
  bindings : Bindings

/-- Renders part of an expression. -/
abbrev Emit := ExceptT ExpressionFault (StateM Emitter)

namespace Emit

/-- Draws a token for a name. -/
def name (text : String) : Emit String := do
  let e ← getThe Emitter
  let token := Token.nameSigil.toString ++ "attr" ++ toString e.scope.names
  set { e with
    scope := { e.scope with names := e.scope.names + 1 }
    bindings := { e.bindings with names := e.bindings.names ++ [(token, text)] } }
  return token

/-- Draws a token for a value. -/
def value (v : AttributeValue) : Emit String := do
  let e ← getThe Emitter
  let token := Token.valueSigil.toString ++ "val" ++ toString e.scope.values
  set { e with
    scope := { e.scope with values := e.scope.values + 1 }
    bindings := { e.bindings with values := e.bindings.values ++ [(token, v)] } }
  return token

/-- Draws a token for each value, in order. -/
def values : List AttributeValue → Emit (List String)
  | [] => return []
  | v :: rest => do
    let token ← value v
    return token :: (← values rest)

/-- Renders an expression of its own: its text with the bindings made for it, and the scope
after it. -/
def fragment (render : Emit String) (scope : Scope) : Except ExpressionFault Fragment × Scope :=
  let (result, e) := render.run.run ⟨scope, {}⟩
  (result.map fun text => ⟨text, e.bindings⟩, e.scope)

/-- Renders an expression that may come to nothing. -/
def fragment? (render : Emit (Option String)) (scope : Scope) :
    Except ExpressionFault (Option Fragment) × Scope :=
  let (result, e) := render.run.run ⟨scope, {}⟩
  (result.map fun text => text.map fun text => ⟨text, e.bindings⟩, e.scope)

end Emit

namespace Path

/-- Renders the segments from one that is not the first on; `whole` is the path they belong
to. -/
def emitLater (whole : Path) : List Segment → Emit String
  | [] => return ""
  | .name text :: rest => do
    if text.isEmpty then throw (.invalidPath whole .emptyName)
    let token ← Emit.name text
    return "." ++ token ++ (← emitLater whole rest)
  | .index n :: rest => do
    return "[" ++ toString n ++ "]" ++ (← emitLater whole rest)

/-- Renders a path, with one token for each of its names. -/
def emit (path : Path) : Emit String :=
  match path.segments with
  | [] => throw .emptyPath
  | .index _ :: _ => throw (.invalidPath path .leadingIndex)
  | .name text :: rest => do
    if text.isEmpty then throw (.invalidPath path .emptyName)
    let token ← Emit.name text
    return token ++ (← emitLater path rest)

/-- Renders a path as an expression of its own. -/
def compile (path : Path) (scope : Scope) : Except ExpressionFault Fragment × Scope :=
  Emit.fragment path.emit scope

end Path

end TableClient
