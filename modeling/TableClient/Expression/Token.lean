/-! Tokens, the placeholders that stand in an expression text.

A token is a sigil followed by letters, digits and underscores of ASCII, as many as there
are. A text is a sequence of tokens and of characters that belong to none; substitution
replaces whole tokens and nothing else. -/
namespace TableClient.Token

/-- Begins the token of a name. -/
def nameSigil : Char := '#'

/-- Begins the token of a value. -/
def valueSigil : Char := ':'

/-- Whether a character begins a token, if one follows that goes on with it. -/
def isSigil (c : Char) : Bool := c = nameSigil || c = valueSigil

/-- Whether a character goes on with a token. -/
def isWordChar (c : Char) : Bool :=
  ('a' ≤ c && c ≤ 'z') || ('A' ≤ c && c ≤ 'Z') || ('0' ≤ c && c ≤ '9') || c = '_'

/-- A piece of an expression text. -/
inductive Piece where
  /-- A character outside all tokens. -/
  | plain (c : Char)
  /-- A whole token: its sigil and the word after it. -/
  | token (chars : List Char)
deriving DecidableEq

/-- The characters of a piece. -/
def Piece.chars : Piece → List Char
  | .plain c => [c]
  | .token chars => chars

/-- The pieces of a text, from left to right. -/
def pieces (text : List Char) : List Piece :=
  match text with
  | [] => []
  | c :: rest =>
    if isSigil c ∧ rest.takeWhile isWordChar ≠ [] then
      .token (c :: rest.takeWhile isWordChar) :: pieces (rest.dropWhile isWordChar)
    else .plain c :: pieces rest
termination_by text.length
decreasing_by
  · exact Nat.lt_succ_of_le (List.dropWhile_sublist _).length_le
  · simp

/-- The pieces of a text, put together, are the text. -/
theorem flatMap_chars_pieces (text : List Char) : (pieces text).flatMap Piece.chars = text := by
  fun_induction pieces text with
  | case1 => rfl
  | case2 c rest h ih =>
    simp only [List.flatMap_cons, ih, Piece.chars, List.cons_append,
      List.takeWhile_append_dropWhile]
  | case3 c rest h ih => simp only [List.flatMap_cons, ih, Piece.chars, List.singleton_append]

/-- The token that a piece is. -/
def Piece.token? : Piece → Option String
  | .plain _ => none
  | .token chars => some (String.ofList chars)

/-- The tokens of a text, in order and with repetitions. -/
def tokens (text : String) : List String :=
  (pieces text.toList).filterMap Piece.token?

/-- A piece with its token replaced, if there is a replacement. -/
def Piece.substitute (replace : String → Option String) : Piece → List Char
  | .plain c => [c]
  | .token chars =>
    match replace (String.ofList chars) with
    | some replacement => replacement.toList
    | none => chars

/-- A text with its tokens replaced, all at once. -/
def substitute (replace : String → Option String) (text : String) : String :=
  String.ofList ((pieces text.toList).flatMap (Piece.substitute replace))

end TableClient.Token
