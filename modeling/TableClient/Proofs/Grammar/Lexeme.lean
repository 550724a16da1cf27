import Mathlib.Data.List.Forall2
import TableClient.Proofs.Sense

/-! Lexemes of an expression text.

A text that has been read falls into words, signs of comparison, marks, and what its tokens
stand for; blanks only separate. `Spells` says which lexemes a text has, whatever follows it
that does not go on with its last token, so that the lexemes of a text are put together the
way the text is. -/
namespace TableClient

/-- A lexeme of an expression text. -/
inductive Lexeme where
  /-- A run of letters, digits and underscores. -/
  | word (chars : List Char)
  /-- A run of the characters that signs of comparison are made of. -/
  | sign (chars : List Char)
  /-- Any other character. -/
  | mark (c : Char)
  | name (text : String)
  | value (v : AttributeValue)
  | unbound (token : String)
deriving DecidableEq

namespace Lexeme

/-- A keyword, or the name of a function. -/
def keyword (text : String) : Lexeme := .word text.toList

/-- Whether a character is part of a sign of comparison. -/
def isSignChar (c : Char) : Bool := c = '<' || c = '=' || c = '>'

/-- Puts a symbol in front of lexemes; a run takes it in if it can. -/
def before : Symbol → List Lexeme → List Lexeme
  | .plain c, lexemes =>
    if Token.isWordChar c then
      match lexemes with
      | .word chars :: rest => .word (c :: chars) :: rest
      | _ => .word [c] :: lexemes
    else if isSignChar c then
      match lexemes with
      | .sign chars :: rest => .sign (c :: chars) :: rest
      | _ => .sign [c] :: lexemes
    else .mark c :: lexemes
  | .name text, lexemes => .name text :: lexemes
  | .value v, lexemes => .value v :: lexemes
  | .unbound token, lexemes => .unbound token :: lexemes

/-- Whether a lexeme only separates others. -/
def isBlank : Lexeme → Bool
  | .mark c => c.isWhitespace
  | _ => false

/-- The lexemes of a text that has been read. -/
def ofSymbols (symbols : List Symbol) : List Lexeme :=
  (symbols.foldr before []).filter fun l => !l.isBlank

/-- The lexemes of characters outside all tokens. -/
def ofChars (chars : List Char) : List Lexeme := ofSymbols (chars.map .plain)

/-- The lexemes of items with a lexeme between each two. -/
def joined (separator : Lexeme) : List (List Lexeme) → List Lexeme
  | [] => []
  | first :: others => first ++ others.flatMap (separator :: ·)

theorem length_le_joined {separator : Lexeme} {lexemes : List (List Lexeme)} {ls : List Lexeme}
    (h : ls ∈ lexemes) : ls.length ≤ (joined separator lexemes).length := by
  cases lexemes with
  | nil => simp at h
  | cons first others =>
    rw [joined, List.length_append]
    rcases List.mem_cons.1 h with rfl | h
    · omega
    · have within : (separator :: ls).Sublist (others.flatMap (separator :: ·)) :=
        List.sublist_flatten_of_mem (List.mem_map_of_mem h)
      have := within.length_le
      rw [List.length_cons] at this
      omega

/-- A lexeme with its value changed. -/
def mapValue (f : AttributeValue → AttributeValue) : Lexeme → Lexeme
  | .value v => .value (f v)
  | l => l

theorem mapValue_eq_keyword (f : AttributeValue → AttributeValue) (text : String) (l : Lexeme) :
    l.mapValue f = keyword text ↔ l = keyword text := by
  cases l <;> simp [mapValue, keyword]

theorem mapValue_eq_mark (f : AttributeValue → AttributeValue) (c : Char) (l : Lexeme) :
    l.mapValue f = mark c ↔ l = mark c := by
  cases l <;> simp [mapValue]

theorem mapValue_eq_sign (f : AttributeValue → AttributeValue) (chars : List Char) (l : Lexeme) :
    l.mapValue f = sign chars ↔ l = sign chars := by
  cases l <;> simp [mapValue]

theorem map_before (f : AttributeValue → AttributeValue) (s : Symbol) (lexemes : List Lexeme) :
    (before s lexemes).map (mapValue f) = before (s.mapValue f) (lexemes.map (mapValue f)) := by
  cases s with
  | plain c =>
    simp only [before, Symbol.mapValue]
    split
    · rcases lexemes with _ | ⟨l, rest⟩
      · rfl
      · cases l <;> rfl
    · split
      · rcases lexemes with _ | ⟨l, rest⟩
        · rfl
        · cases l <;> rfl
      · rfl
  | _ => rfl

/-- A word before a mark is one lexeme. -/
theorem foldr_before_word {word : List Char} (h : ∀ c ∈ word, Token.isWordChar c = true)
    (some : word ≠ []) (m : Char) (rest : List Lexeme) :
    (word.map Symbol.plain).foldr before (.mark m :: rest) = .word word :: .mark m :: rest := by
  induction word with
  | nil => exact absurd rfl some
  | cons c others ih =>
    have first : Token.isWordChar c = true := h c List.mem_cons_self
    rcases others with _ | ⟨d, others⟩
    · simp [before, first]
    · rw [List.map_cons, List.foldr_cons,
        ih (fun d hd => h d (List.mem_cons_of_mem c hd)) (by simp)]
      simp [before, first]

/-- Texts that say the same have lexemes that say the same. -/
theorem map_ofSymbols_eq {symbols symbols' : List Symbol}
    (h : List.Forall₂ Symbol.Same symbols symbols') :
    (ofSymbols symbols).map (mapValue AttributeValue.normalized) =
      (ofSymbols symbols').map (mapValue AttributeValue.normalized) := by
  have blank (l : Lexeme) : (l.mapValue AttributeValue.normalized).isBlank = l.isBlank := by
    cases l <;> rfl
  have runs : (symbols.foldr before []).map (mapValue AttributeValue.normalized) =
      (symbols'.foldr before []).map (mapValue AttributeValue.normalized) := by
    induction h with
    | nil => rfl
    | cons same _ ih =>
      rw [List.foldr_cons, List.foldr_cons, map_before, map_before, ih, same.mapValue]
  have visible (ls : List Lexeme) :
      (ls.filter fun l => !l.isBlank).map (mapValue AttributeValue.normalized) =
        (ls.map (mapValue AttributeValue.normalized)).filter fun l => !l.isBlank := by
    simp [List.filter_map, Function.comp_def, blank]
  rw [ofSymbols, ofSymbols, visible, visible, runs]

/-! ### Where one text ends and the next begins -/

theorem before_ne_nil (s : Symbol) (lexemes : List Lexeme) : before s lexemes ≠ [] := by
  cases s with
  | plain c => unfold before; grind
  | _ => simp [before]

theorem before_append (s : Symbol) {first : List Lexeme} (h : first ≠ []) (rest : List Lexeme) :
    before s (first ++ rest) = before s first ++ rest := by
  cases s with
  | plain c =>
    obtain ⟨l, others, rfl⟩ := List.exists_cons_of_ne_nil h
    cases l <;> simp only [before, List.cons_append] <;> split_ifs <;> rfl
  | _ => rfl

theorem foldr_before_append (symbols : List Symbol) {first : List Lexeme} (h : first ≠ [])
    (rest : List Lexeme) :
    symbols.foldr before (first ++ rest) = symbols.foldr before first ++ rest := by
  induction symbols with
  | nil => rfl
  | cons s others ih =>
    rw [List.foldr_cons, ih, List.foldr_cons]
    apply before_append
    cases others with
    | nil => exact h
    | cons s' others' => exact before_ne_nil _ _

end Lexeme

namespace Sense

/-- The lexemes of a text. -/
def lexemes (σ : Sense) (text : List Char) : List Lexeme := Lexeme.ofSymbols (σ.read text)

end Sense

/-- A text without tokens that ends in a mark, so that nothing joins its end, and its lexemes. -/
structure IsLiteral (text : String) (lexemes : List Lexeme) : Prop where
  plain : (text.toList.all fun c => !Token.isSigil c) = true
  closed : (text.toList.getLast?.all fun c =>
    !Token.isWordChar c && !Lexeme.isSignChar c) = true
  lexemes : Lexeme.ofChars text.toList = lexemes

namespace IsLiteral
variable {text : String} {lexemes : List Lexeme} (h : IsLiteral text lexemes)
include h

theorem not_isSigil : ∀ c ∈ text.toList, Token.isSigil c = false := by
  simpa using h.plain

theorem foldr_before (rest : List Lexeme) :
    (text.toList.map Symbol.plain).foldr Lexeme.before rest =
      (text.toList.map Symbol.plain).foldr Lexeme.before [] ++ rest := by
  have closed := h.closed
  cases last : text.toList.getLast? with
  | none => simp [List.getLast?_eq_none_iff.1 last]
  | some c =>
    obtain ⟨chars, shape⟩ := List.getLast?_eq_some_iff.1 last
    obtain ⟨word, sign⟩ : Token.isWordChar c = false ∧ Lexeme.isSignChar c = false := by
      simpa [last] using closed
    have mark (ls : List Lexeme) : Lexeme.before (.plain c) ls = [.mark c] ++ ls := by
      simp [Lexeme.before, word, sign]
    simp only [shape, List.map_append, List.map_cons, List.map_nil, List.foldr_append,
      List.foldr_cons, List.foldr_nil, mark]
    exact Lexeme.foldr_before_append _ (by simp) rest

/-- The lexemes of a literal come first, whatever follows it. -/
theorem lexemes_append (σ : Sense) (rest : List Char) :
    σ.lexemes (text.toList ++ rest) = lexemes ++ σ.lexemes rest := by
  rw [Sense.lexemes, σ.read_append_of_plain h.not_isSigil, Lexeme.ofSymbols, List.foldr_append,
    h.foldr_before, List.filter_append, ← h.lexemes]
  rfl

theorem tokens_append (rest : String) : Token.tokens (text ++ rest) = Token.tokens rest := by
  rw [Token.tokens, String.toList_append, Token.pieces_append_of_plain h.not_isSigil,
    List.filterMap_append, List.filterMap_map]
  have none : List.filterMap (Token.Piece.token? ∘ Token.Piece.plain) text.toList = [] :=
    List.filterMap_eq_nil_iff.2 fun _ _ => rfl
  rw [none]
  rfl

theorem tokens : Token.tokens text = [] := by
  simpa [Token.tokens] using h.tokens_append ""

end IsLiteral

/-- A literal that stands between two texts. -/
structure IsJoint (text : String) (lexemes : List Lexeme) : Prop extends
    IsLiteral text lexemes where
  begins : text.toList.head?.any (fun c => !Token.isWordChar c) = true

theorem IsJoint.not_continues {text : String} {lexemes : List Lexeme} (h : IsJoint text lexemes)
    (rest : List Char) : Token.continues (text.toList ++ rest) = false := by
  have begins := h.begins
  cases shape : text.toList with
  | nil => simp [shape] at begins
  | cons c chars => simpa [shape, Token.continues] using begins

theorem IsJoint.not_continues_append {text : String} {lexemes : List Lexeme}
    (h : IsJoint text lexemes) (rest : String) :
    Token.continues (text ++ rest).toList = false := by
  rw [String.toList_append]
  exact h.not_continues _

theorem isJoint_comma : IsJoint ", " [.mark ','] := ⟨⟨rfl, rfl, rfl⟩, rfl⟩

theorem isJoint_close : IsJoint ")" [.mark ')'] := ⟨⟨rfl, rfl, rfl⟩, rfl⟩

/-! ### Texts and their lexemes -/

/-- A text has these lexemes, whatever follows it that does not go on with its last token, and
all its tokens stand for something. -/
structure Spells (σ : Sense) (text : String) (lexemes : List Lexeme) : Prop where
  lexemes : ∀ rest, Token.continues rest = false →
    σ.lexemes (text.toList ++ rest) = lexemes ++ σ.lexemes rest
  bound : ∀ token ∈ Token.tokens text, σ.target token ≠ .unbound token

namespace Spells
variable {σ : Sense} {a b lit : String} {la lb ll : List Lexeme}

/-- A text on its own. -/
theorem whole (h : Spells σ a la) : σ.lexemes a.toList = la := by
  have := h.lexemes [] rfl
  rw [List.append_nil] at this
  rw [this]
  simp [Sense.lexemes, Sense.read, Lexeme.ofSymbols]

theorem literal (h : IsLiteral lit ll) : Spells σ lit ll where
  lexemes rest _ := h.lexemes_append σ rest
  bound := by simp [h.tokens]

/-- A token has one lexeme. -/
theorem token {token : String} {l : Lexeme} {s : Symbol} (formed : Token.IsWhole token)
    (target : σ.target token = s) (known : s ≠ .unbound token)
    (single : ∀ ls, Lexeme.before s ls = l :: ls) (visible : l.isBlank = false) :
    Spells σ token [l] where
  lexemes rest h := by
    rw [Sense.lexemes, σ.read_append _ h, Lexeme.ofSymbols, List.foldr_append, σ.read_token formed,
      target, List.foldr_cons, List.foldr_nil, single, List.filter_cons, visible]
    rfl
  bound := by
    rw [formed.tokens]
    intro t ht
    obtain rfl := List.mem_singleton.1 ht
    rwa [target]

theorem name {token text : String} (formed : Token.isToken Token.nameSigil token = true)
    (h : σ.name token = some text) : Spells σ token [.name text] :=
  Spells.token ⟨_, by decide, formed⟩ (Sense.target_of_name formed h) (by simp) (fun _ => rfl) rfl

theorem value {token : String} {v : AttributeValue}
    (formed : Token.isToken Token.valueSigil token = true) (h : σ.value token = some v) :
    Spells σ token [.value v] :=
  Spells.token ⟨_, by decide, formed⟩ (Sense.target_of_value formed h) (by simp) (fun _ => rfl) rfl

theorem append (ha : Spells σ a la) (hb : Spells σ b lb)
    (h : Token.continues b.toList = false) : Spells σ (a ++ b) (la ++ lb) where
  lexemes rest hr := by
    rw [String.toList_append, List.append_assoc,
      ha.lexemes _ (Token.continues_append h hr), hb.lexemes rest hr, List.append_assoc]
  bound token ht := by
    rw [Token.tokens_append a h] at ht
    exact (List.mem_append.1 ht).elim (ha.bound token) (hb.bound token)

/-- A text after a literal. -/
theorem after (hl : IsLiteral lit ll) (hb : Spells σ b lb) : Spells σ (lit ++ b) (ll ++ lb) where
  lexemes rest hr := by
    rw [String.toList_append, List.append_assoc, hl.lexemes_append, hb.lexemes rest hr,
      List.append_assoc]
  bound token ht := hb.bound token (by rwa [hl.tokens_append] at ht)

/-- A literal after a text. -/
theorem close (ha : Spells σ a la) (hl : IsJoint lit ll) : Spells σ (a ++ lit) (la ++ ll) :=
  ha.append (literal hl.toIsLiteral) (by simpa using hl.not_continues [])

/-- Two texts with a literal between them. -/
theorem join (ha : Spells σ a la) (hl : IsJoint lit ll) (hb : Spells σ b lb) :
    Spells σ (a ++ lit ++ b) (la ++ ll ++ lb) := by
  rw [String.append_assoc, List.append_assoc]
  exact ha.append (after hl.toIsLiteral hb) (hl.not_continues_append b)

/-- Texts with a literal between each two. -/
theorem intercalate {separator : Lexeme} (hl : IsJoint lit [separator]) {texts : List String}
    {lexemes : List (List Lexeme)} (h : List.Forall₂ (Spells σ) texts lexemes) :
    Spells σ (String.intercalate lit texts) (Lexeme.joined separator lexemes) := by
  induction h with
  | nil => exact literal ⟨rfl, rfl, rfl⟩
  | @cons a la texts lexemes ha hs ih =>
    cases hs with
    | nil => simpa [Lexeme.joined] using ha
    | @cons b lb texts lexemes hb hs =>
      rw [String.intercalate_cons_cons]
      simpa [Lexeme.joined] using ha.join hl ih

/-- Texts with blanks between them. -/
theorem intercalate_blank {texts : List String} {lexemes : List (List Lexeme)}
    (h : List.Forall₂ (Spells σ) texts lexemes) :
    Spells σ (String.intercalate " " texts) lexemes.flatten := by
  have blank : IsJoint " " [] := ⟨⟨rfl, rfl, rfl⟩, rfl⟩
  induction h with
  | nil => exact literal ⟨rfl, rfl, rfl⟩
  | @cons a la texts lexemes ha hs ih =>
    cases hs with
    | nil => simpa using ha
    | @cons b lb texts lexemes hb hs =>
      rw [String.intercalate_cons_cons]
      simpa using ha.join blank ih

end Spells

end TableClient
