import TableClient.Expression.Token
import Mathlib.Data.List.TakeWhile

/-! Substitution acts on whole tokens.

The pieces of two texts put together are the pieces of each, unless the second goes on
with a token that the first ends in (`pieces_append`). So a text whose tokens are replaced
by well-formed tokens has the same pieces, with the tokens replaced (`pieces_substitute`):
no replacement merges with its surroundings, and none is cut out of a longer token. -/
namespace TableClient.Token

/-! ### Where one text ends and the next begins -/

/-- Whether a text goes on with a token that ends right before it. -/
def continues : List Char → Bool
  | [] => false
  | c :: _ => isWordChar c

theorem continues_append {a b : List Char} (ha : continues a = false) (hb : continues b = false) :
    continues (a ++ b) = false := by
  cases a with
  | nil => exact hb
  | cons c rest => exact ha

theorem takeWhile_eq_nil {text : List Char} :
    text.takeWhile isWordChar = [] ↔ continues text = false := by
  cases text with
  | nil => simp [continues]
  | cons c rest => cases h : isWordChar c <;> simp [continues, h]

theorem takeWhile_ne_nil {text : List Char} :
    text.takeWhile isWordChar ≠ [] ↔ continues text = true := by
  rw [Ne, takeWhile_eq_nil, Bool.not_eq_false]

theorem takeWhile_append (a : List Char) {b : List Char} (h : continues b = false) :
    (a ++ b).takeWhile isWordChar = a.takeWhile isWordChar := by
  rw [List.takeWhile_append, takeWhile_eq_nil.2 h, List.append_nil]
  split
  · next whole =>
    exact ((List.takeWhile_prefix _).eq_of_length whole).symm
  · rfl

theorem dropWhile_append (a : List Char) {b : List Char} (h : continues b = false) :
    (a ++ b).dropWhile isWordChar = a.dropWhile isWordChar ++ b := by
  induction a with
  | nil =>
    cases b with
    | nil => rfl
    | cons c rest => exact List.dropWhile_cons_of_neg (by simpa [continues] using h)
  | cons c rest ih =>
    cases hc : isWordChar c
    · simp [hc]
    · simpa [hc] using ih

theorem continues_dropWhile (text : List Char) :
    continues (text.dropWhile isWordChar) = false := by
  rw [← takeWhile_eq_nil]
  induction text with
  | nil => rfl
  | cons c rest ih => cases h : isWordChar c <;> simp [h, ih]

/-- A sigil does not go on with a token. -/
theorem isWordChar_of_isSigil {c : Char} (h : isSigil c = true) : isWordChar c = false := by
  simp only [isSigil, Bool.or_eq_true, decide_eq_true_eq] at h
  rcases h with rfl | rfl <;> decide

/-! ### The pieces of a text -/

@[simp] theorem pieces_nil : pieces [] = [] := by
  simp [pieces]

/-- A sigil with a word after it begins a token. -/
theorem pieces_cons_token {c : Char} {rest : List Char} (hc : isSigil c = true)
    (hr : continues rest = true) :
    pieces (c :: rest) =
      .token (c :: rest.takeWhile isWordChar) :: pieces (rest.dropWhile isWordChar) := by
  rw [pieces, if_pos ⟨hc, takeWhile_ne_nil.2 hr⟩]

/-- Any other character is a piece of its own. -/
theorem pieces_cons_plain {c : Char} {rest : List Char}
    (h : isSigil c = true → continues rest = false) :
    pieces (c :: rest) = .plain c :: pieces rest := by
  rw [pieces, if_neg]
  intro token
  obtain ⟨hc, word⟩ := token
  exact word (takeWhile_eq_nil.2 (h hc))

/-- Texts can be put together anywhere but within a token. -/
theorem pieces_append (a : List Char) {b : List Char} (h : continues b = false) :
    pieces (a ++ b) = pieces a ++ pieces b := by
  fun_induction pieces a with
  | case1 => rfl
  | case2 c rest token ih =>
    have more : continues (rest ++ b) = true := by
      rw [← takeWhile_ne_nil, takeWhile_append rest h]
      exact token.2
    rw [List.cons_append, pieces_cons_token token.1 more, takeWhile_append rest h,
      dropWhile_append rest h, ih, List.cons_append]
  | case3 c rest plain ih =>
    rw [List.cons_append, pieces_cons_plain, ih, List.cons_append]
    intro hc
    rw [← takeWhile_eq_nil, takeWhile_append rest h]
    exact not_not.1 fun word => plain ⟨hc, word⟩

/-- A text without sigils has no tokens, and begins none. -/
theorem pieces_append_of_plain {a : List Char} (plain : ∀ c ∈ a, isSigil c = false)
    (b : List Char) : pieces (a ++ b) = a.map .plain ++ pieces b := by
  induction a with
  | nil => rfl
  | cons c rest ih =>
    have hc : isSigil c = false := plain c List.mem_cons_self
    rw [List.cons_append, pieces_cons_plain (by simp [hc]),
      ih fun d hd => plain d (List.mem_cons_of_mem c hd)]
    rfl

theorem tokens_append (a : String) {b : String} (h : continues b.toList = false) :
    tokens (a ++ b) = tokens a ++ tokens b := by
  simp only [tokens, String.toList_append, pieces_append _ h, List.filterMap_append]

/-! ### Well-formed tokens -/

/-- Whether a text is a token with the given sigil. -/
def isToken (sigil : Char) (token : String) : Bool :=
  match token.toList with
  | [] => false
  | c :: word => c = sigil && !word.isEmpty && word.all isWordChar

/-- A token is its sigil and a word. -/
theorem isToken_iff {sigil : Char} {token : String} :
    isToken sigil token = true ↔
      ∃ word, token.toList = sigil :: word ∧ word ≠ [] ∧ ∀ c ∈ word, isWordChar c = true := by
  unfold isToken
  split
  · next h => simp [h]
  · next c word h => simp [h, and_assoc]

/-- A text is a token, of whatever sigil. -/
def IsWhole (token : String) : Prop :=
  ∃ sigil, isSigil sigil = true ∧ isToken sigil token = true

/-- The pieces of a token are the token. -/
theorem IsWhole.pieces {token : String} (h : IsWhole token) :
    pieces token.toList = [.token token.toList] := by
  obtain ⟨sigil, hs, ht⟩ := h
  obtain ⟨word, shape, some, chars⟩ := isToken_iff.1 ht
  have whole : word.takeWhile isWordChar = word := List.takeWhile_eq_self_iff.2 chars
  have more : continues word = true := by
    rw [← takeWhile_ne_nil, whole]
    exact some
  rw [shape, pieces_cons_token hs more, whole, List.dropWhile_eq_nil_iff.2 chars, pieces_nil]

/-- A token begins anew, whatever follows it. -/
theorem IsWhole.not_continues {token : String} (h : IsWhole token) (rest : List Char) :
    continues (token.toList ++ rest) = false := by
  obtain ⟨sigil, hs, ht⟩ := h
  obtain ⟨word, shape, -, -⟩ := isToken_iff.1 ht
  rw [shape]
  exact isWordChar_of_isSigil hs

theorem IsWhole.tokens {token : String} (h : IsWhole token) : tokens token = [token] := by
  simp [Token.tokens, h.pieces, Piece.token?]

/-- A sigil with the word after it is a token. -/
theorem isWhole_of_takeWhile {c : Char} {rest : List Char} (hc : isSigil c = true)
    (word : rest.takeWhile isWordChar ≠ []) :
    IsWhole (String.ofList (c :: rest.takeWhile isWordChar)) := by
  refine ⟨c, hc, isToken_iff.2 ⟨_, String.toList_ofList, word, ?_⟩⟩
  intro d hd
  exact List.mem_takeWhile_imp hd

/-- A token has one sigil. -/
theorem isToken_sigil {sigil other : Char} {token : String} (h : isToken sigil token = true)
    (h' : isToken other token = true) : sigil = other := by
  obtain ⟨word, shape, -, -⟩ := isToken_iff.1 h
  obtain ⟨word', shape', -, -⟩ := isToken_iff.1 h'
  rw [shape] at shape'
  exact (List.cons.inj shape').1

/-! ### Numbered tokens -/

theorem isWordChar_of_mem_toString {n : Nat} {c : Char} (h : c ∈ (toString n).toList) :
    isWordChar c = true := by
  rw [Nat.toString_eq_repr, Nat.toList_repr] at h
  have digit := Nat.isDigit_of_mem_toDigits (by decide) (by decide) h
  simp only [Char.isDigit, Bool.and_eq_true, decide_eq_true_eq] at digit
  have range : ('0' ≤ c && c ≤ '9') = true := by
    simp only [Bool.and_eq_true, decide_eq_true_eq]
    exact digit
  simp [isWordChar, range]

/-- A sigil, a word and a number make a token. -/
theorem isToken_numbered (sigil : Char) {stem : String}
    (word : stem.toList.all isWordChar = true) (n : Nat) :
    isToken sigil (sigil.toString ++ stem ++ toString n) = true := by
  refine isToken_iff.2 ⟨stem.toList ++ (toString n).toList, by simp, ?_, ?_⟩
  · simp
  · intro c hc
    rcases List.mem_append.1 hc with hc | hc
    · exact List.all_eq_true.1 word c hc
    · exact isWordChar_of_mem_toString hc

/-- Tokens of different numbers differ. -/
theorem numbered_injective (sigil : Char) (stem : String) :
    Function.Injective fun n : Nat => sigil.toString ++ stem ++ toString n := by
  intro m n h
  have digits : (toString m).toList = (toString n).toList := by
    simpa using congrArg String.toList h
  simp only [Nat.toString_eq_repr, Nat.toList_repr] at digits
  calc
    m = Nat.ofDigitChars 10 (Nat.toDigits 10 m) 0 := Nat.ofDigitChars_ten_toDigits.symm
    _ = Nat.ofDigitChars 10 (Nat.toDigits 10 n) 0 := by rw [digits]
    _ = n := Nat.ofDigitChars_ten_toDigits

/-! ### Replacing tokens by tokens -/

/-- A piece with its token replaced, if there is a replacement. -/
def Piece.rename (replace : String → Option String) : Piece → Piece
  | .plain c => .plain c
  | .token chars => .token ((replace (String.ofList chars)).elim chars String.toList)

theorem Piece.chars_rename (replace : String → Option String) (piece : Piece) :
    (piece.rename replace).chars = piece.substitute replace := by
  cases piece with
  | plain c => rfl
  | token chars =>
    cases h : replace (String.ofList chars) <;> simp [rename, substitute, Piece.chars, h]

theorem Piece.rename_token (replace : String → Option String) (chars : List Char) :
    (Piece.token chars).rename replace =
      .token ((replace (String.ofList chars)).getD (String.ofList chars)).toList := by
  cases h : replace (String.ofList chars) <;> simp [rename, h]

section Substitution
variable {replace : String → Option String}

theorem isWhole_rename (whole : ∀ t u, replace t = some u → IsWhole u) {token : List Char}
    (h : IsWhole (String.ofList token)) :
    IsWhole (String.ofList ((replace (String.ofList token)).elim token String.toList)) := by
  cases hr : replace (String.ofList token) with
  | none => exact h
  | some u => simpa using whole _ u hr

/-- Replaced or not, a text begins the way it did. -/
theorem continues_substitute (whole : ∀ t u, replace t = some u → IsWhole u)
    (text : List Char) :
    continues ((pieces text).flatMap (Piece.substitute replace)) = continues text := by
  fun_cases pieces text with
  | case1 => rfl
  | case2 c rest token =>
    have first := (isWhole_rename whole (isWhole_of_takeWhile token.1 token.2)).not_continues
      ((pieces (rest.dropWhile isWordChar)).flatMap (Piece.substitute replace))
    rw [String.toList_ofList] at first
    rw [List.flatMap_cons, ← Piece.chars_rename]
    exact first.trans (isWordChar_of_isSigil token.1).symm
  | case3 c rest plain => rfl

/-- **Substitution acts on pieces**: the text with its tokens replaced by tokens has the pieces
of the text, with the tokens replaced. -/
theorem pieces_substitute (whole : ∀ t u, replace t = some u → IsWhole u) (text : String) :
    pieces (substitute replace text).toList = (pieces text.toList).map (Piece.rename replace) := by
  rw [substitute, String.toList_ofList]
  generalize text.toList = chars
  fun_induction pieces chars with
  | case1 => simp
  | case2 c rest token ih =>
    have first := isWhole_rename whole (isWhole_of_takeWhile token.1 token.2)
    have stops := (continues_substitute whole (rest.dropWhile isWordChar)).trans
      (continues_dropWhile rest)
    rw [List.flatMap_cons, pieces_append _ stops, ih, ← Piece.chars_rename, List.map_cons]
    have := first.pieces
    rw [String.toList_ofList] at this
    rw [Piece.rename, Piece.chars, this, List.singleton_append]
  | case3 c rest plain ih =>
    rw [List.flatMap_cons, List.map_cons, ← ih]
    apply pieces_cons_plain
    intro hc
    show continues ((pieces rest).flatMap (Piece.substitute replace)) = false
    rw [continues_substitute whole, ← takeWhile_eq_nil]
    exact not_not.1 fun word => plain ⟨hc, word⟩

/-- The tokens of a text with its tokens replaced. -/
theorem tokens_substitute (whole : ∀ t u, replace t = some u → IsWhole u) (text : String) :
    tokens (substitute replace text) = (tokens text).map fun t => (replace t).getD t := by
  rw [tokens, pieces_substitute whole, tokens, List.filterMap_map, List.map_filterMap]
  congr 1
  funext piece
  cases piece with
  | plain c => rfl
  | token chars =>
    cases h : replace (String.ofList chars) <;> simp [Piece.rename, Piece.token?, h]

end Substitution

end TableClient.Token
