import TableClient.Expression.Placeholder
import TableClient.Proofs.KeyMap
import TableClient.Proofs.Token

/-! What an expression text says.

A text is read with what its tokens stand for in place of the tokens. Two readings say the
same if they agree in every character and every name, and in every value up to the order and
repetition of set members; a reading with a token that stands for nothing says the same as
none. -/
namespace TableClient

/-- What tokens stand for. -/
structure Sense where
  name : String → Option String
  value : String → Option AttributeValue

/-- A piece of a text that has been read. -/
inductive Symbol where
  | plain (c : Char)
  | name (text : String)
  | value (v : AttributeValue)
  /-- A token that stands for nothing. -/
  | unbound (token : String)
deriving DecidableEq

/-- A symbol with its value changed. -/
def Symbol.mapValue (f : AttributeValue → AttributeValue) : Symbol → Symbol
  | .value v => .value (f v)
  | s => s

/-- Two symbols say the same. -/
inductive Symbol.Same : Symbol → Symbol → Prop where
  | plain (c : Char) : Same (.plain c) (.plain c)
  | name (text : String) : Same (.name text) (.name text)
  | value {v w : AttributeValue} (h : v.sameAs w = true) : Same (.value v) (.value w)

theorem Symbol.Same.mapValue {s t : Symbol} (h : s.Same t) :
    s.mapValue AttributeValue.normalized = t.mapValue AttributeValue.normalized := by
  cases h with
  | plain c => rfl
  | name text => rfl
  | value same => exact congrArg Symbol.value (of_decide_eq_true same)

namespace Sense

/-- What a token stands for; its sigil says whether that is a name or a value. -/
def target (σ : Sense) (token : String) : Symbol :=
  if token.toList.head? = some Token.nameSigil then
    ((σ.name token).map Symbol.name).getD (.unbound token)
  else ((σ.value token).map Symbol.value).getD (.unbound token)

/-- A piece, read. -/
def symbol (σ : Sense) : Token.Piece → Symbol
  | .plain c => .plain c
  | .token chars => σ.target (String.ofList chars)

/-- A text, read from left to right. -/
def read (σ : Sense) (text : List Char) : List Symbol :=
  (Token.pieces text).map σ.symbol

theorem read_append (σ : Sense) (a : List Char) {b : List Char}
    (h : Token.continues b = false) : σ.read (a ++ b) = σ.read a ++ σ.read b := by
  rw [read, Token.pieces_append a h, List.map_append]
  rfl

theorem read_append_of_plain (σ : Sense) {a : List Char}
    (plain : ∀ c ∈ a, Token.isSigil c = false) (b : List Char) :
    σ.read (a ++ b) = a.map .plain ++ σ.read b := by
  rw [read, Token.pieces_append_of_plain plain, List.map_append, List.map_map]
  rfl

theorem read_token (σ : Sense) {token : String} (h : Token.IsWhole token) :
    σ.read token.toList = [σ.target token] := by
  simp [read, h.pieces, symbol]

theorem target_of_name {σ : Sense} {token text : String}
    (formed : Token.isToken Token.nameSigil token = true) (h : σ.name token = some text) :
    σ.target token = .name text := by
  obtain ⟨word, shape, -, -⟩ := Token.isToken_iff.1 formed
  simp [target, shape, h]

theorem target_of_value {σ : Sense} {token : String} {v : AttributeValue}
    (formed : Token.isToken Token.valueSigil token = true) (h : σ.value token = some v) :
    σ.target token = .value v := by
  obtain ⟨word, shape, -, -⟩ := Token.isToken_iff.1 formed
  have differs : Token.valueSigil ≠ Token.nameSigil := by decide
  simp [target, shape, h, differs]

end Sense

namespace Bindings

@[simp] theorem names_append (a b : Bindings) : (a ++ b).names = a.names ++ b.names := rfl

@[simp] theorem values_append (a b : Bindings) : (a ++ b).values = a.values ++ b.values := rfl

theorem append_assoc (a b c : Bindings) : a ++ b ++ c = a ++ (b ++ c) :=
  congrArg₂ mk (List.append_assoc ..) (List.append_assoc ..)

theorem append_empty (b : Bindings) : b ++ {} = b :=
  congrArg₂ mk (List.append_nil _) (List.append_nil _)

theorem empty_append (b : Bindings) : {} ++ b = b := rfl

/-- What tokens stand for in the maps that bindings become. -/
def sense (b : Bindings) : Sense := ⟨b.nameMap.get?, b.valueMap.get?⟩

/-- Whether a token is bound. -/
def Binds (b : Bindings) (token : String) : Prop :=
  token ∈ b.names.map Prod.fst ∨ token ∈ b.values.map Prod.fst

/-- The tokens of bindings are well formed and each is bound once. -/
structure Proper (b : Bindings) : Prop where
  names : ∀ token ∈ b.names.map Prod.fst, Token.isToken Token.nameSigil token = true
  values : ∀ token ∈ b.values.map Prod.fst, Token.isToken Token.valueSigil token = true
  names_distinct : (b.names.map Prod.fst).Nodup
  values_distinct : (b.values.map Prod.fst).Nodup

instance (b : Bindings) (token : String) : Decidable (b.Binds token) :=
  inferInstanceAs (Decidable (_ ∨ _))

instance (b : Bindings) : Decidable b.Proper :=
  decidable_of_iff
    ((∀ token ∈ b.names.map Prod.fst, Token.isToken Token.nameSigil token = true) ∧
      (∀ token ∈ b.values.map Prod.fst, Token.isToken Token.valueSigil token = true) ∧
      (b.names.map Prod.fst).Nodup ∧ (b.values.map Prod.fst).Nodup)
    ⟨fun ⟨n, v, dn, dv⟩ => ⟨n, v, dn, dv⟩, fun h => ⟨h.1, h.2, h.3, h.4⟩⟩

theorem Proper.target_name {b : Bindings} (h : b.Proper) {token text : String}
    (member : (token, text) ∈ b.names) : b.sense.target token = .name text :=
  Sense.target_of_name (h.names _ (List.mem_map_of_mem member))
    (KeyMap.get?_ofList_of_mem h.names_distinct member)

theorem Proper.target_value {b : Bindings} (h : b.Proper) {token : String} {v : AttributeValue}
    (member : (token, v) ∈ b.values) : b.sense.target token = .value v :=
  Sense.target_of_value (h.values _ (List.mem_map_of_mem member))
    (KeyMap.get?_ofList_of_mem h.values_distinct member)

/-- A name token is not a value token. -/
theorem Proper.disjoint {b : Bindings} (h : b.Proper) {token : String}
    (name : token ∈ b.names.map Prod.fst) : token ∉ b.values.map Prod.fst := by
  intro value
  exact absurd (Token.isToken_sigil (h.names token name) (h.values token value)) (by decide)

end Bindings

end TableClient
