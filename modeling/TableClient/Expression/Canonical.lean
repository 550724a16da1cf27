import TableClient.Expression.Placeholder

/-! The canonical form of the placeholders of a request.

Tokens of equal names, or of values that are the same, become one. Those that the texts
use are then renumbered in the order in which they first occur, and bindings that no text
uses are dropped. Tokens that are not bound stay as they are. -/
namespace TableClient.Bindings

section Folding
variable {α : Type}

/-- Bindings in the course of folding: the first of each target, and for every other token
the one that stands for it. -/
structure Folded (α : Type) where
  kept : List (String × α)
  aliases : List (String × String)

/-- Takes in one binding: it is kept unless its target is bound already. -/
def Folded.add (same : α → α → Bool) (f : Folded α) (binding : String × α) : Folded α :=
  match f.kept.find? fun first => same first.2 binding.2 with
  | some first => { f with aliases := f.aliases ++ [(binding.1, first.1)] }
  | none => { f with kept := f.kept ++ [binding] }

/-- Keeps the first binding of each target. -/
def fold (same : α → α → Bool) (bindings : List (String × α)) : Folded α :=
  bindings.foldl (Folded.add same) ⟨[], []⟩

end Folding

/-- The canonical token of the name at a position. -/
def nameToken (position : Nat) : String :=
  Token.nameSigil.toString ++ "n" ++ toString position

/-- The canonical token of the value at a position. -/
def valueToken (position : Nat) : String :=
  Token.valueSigil.toString ++ "v" ++ toString position

/-- Numbers tokens in order. -/
def number (canonical : Nat → String) (tokens : List String) : List (String × String) :=
  tokens.zipIdx.map fun (token, position) => (token, canonical position)

/-- What numbered tokens are bound to, under their canonical tokens. -/
def rebind {α : Type} (targets : KeyMap α) (numbered : List (String × String)) :
    List (String × α) :=
  numbered.filterMap fun (token, canonical) =>
    (targets.get? token).map fun target => (canonical, target)

/-- A canonical form: how texts are written with the new tokens, and what these stand
for. -/
structure Canonical where
  substitute : String → String
  bindings : Bindings

/-- Renumbers the bound tokens of texts in the order of their first occurrence. A token bound
as a name is not one bound as a value. -/
def renumber (texts : List String) (names : KeyMap String) (values : KeyMap AttributeValue) :
    Canonical :=
  let used := (texts.flatMap Token.tokens).eraseDups
  let numberedNames := number nameToken (used.filter fun token => (names.get? token).isSome)
  let numberedValues := number valueToken
    (used.filter fun token => (names.get? token).isNone && (values.get? token).isSome)
  let renames := numberedNames ++ numberedValues
  { substitute := Token.substitute fun token => renames.lookup token
    bindings := ⟨rebind names numberedNames, rebind values numberedValues⟩ }

/-- The canonical form of the bindings of texts. -/
def canonical (texts : List String) (bindings : Bindings) : Canonical :=
  let names := fold (· = ·) bindings.names
  let values := fold AttributeValue.sameAs bindings.values
  let aliases := KeyMap.ofList (names.aliases ++ values.aliases)
  let folded := Token.substitute aliases.get?
  let numbered := renumber (texts.map folded) (KeyMap.ofList names.kept) (KeyMap.ofList values.kept)
  { numbered with substitute := fun text => numbered.substitute (folded text) }

/-- Texts and bindings in canonical form. -/
def optimize (texts : List String) (bindings : Bindings) : List String × Bindings :=
  let form := canonical texts bindings
  (texts.map form.substitute, form.bindings)

end TableClient.Bindings
