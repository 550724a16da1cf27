import TableClient.Proofs.Token
import Mathlib.Data.List.Forall2
import Mathlib.Data.String.Basic

/-! Substitution as a homomorphism.

The tokens of a text lie where it has a sigil with word characters behind it, as many as there are
(`mem_spans_iff`), one after the other; a cursor that passes them substitutes (`splice_spans`).
Between them lies text that belongs to none (`gaps`), and the two woven together are the text.
Substitution leaves what lies between tokens as it is and acts on the tokens one by one; the tokens
it puts in neither grow together with what is around them nor fall apart. So a text can be taken
through two substitutions at once (`substitute_substitute`). -/
namespace TableClient.Token

open String (utf8Len)

/-! ### Bytes -/

/-- Of two beginnings of a text the shorter one begins the other. -/
theorem exists_append_of_utf8Len_le {a b x y : List Char} (h : a ++ x = b ++ y)
    (hle : utf8Len a ≤ utf8Len b) : ∃ more, b = a ++ more ∧ x = more ++ y := by
  rcases List.append_eq_append_iff.1 h with ⟨more, hb, hx⟩ | ⟨more, rfl, rfl⟩
  · exact ⟨more, hb, hx⟩
  · have hnone : more = [] := by
      rw [String.utf8Len_append] at hle
      exact String.utf8Len_eq_zero.1 (by omega)
    exact ⟨[], by simp [hnone], by simp [hnone]⟩

/-! ### Where tokens lie -/

/-- Where tokens lie, each from its first byte to the one behind it, among pieces that come after
some bytes. -/
def spansFrom : (start : Nat) → List Piece → List (Nat × Nat)
  | _, [] => []
  | start, .plain c :: rest => spansFrom (start + utf8Len [c]) rest
  | start, .token chars :: rest =>
    (start, start + utf8Len chars) :: spansFrom (start + utf8Len chars) rest

/-- Where the tokens of a text lie. -/
def spans (text : String) : List (Nat × Nat) := spansFrom 0 (pieces text.toList)

/-- Whether a text has a part at some bytes. -/
def LiesAt (text part : String) (start stop : Nat) : Prop :=
  ∃ before after, text = before ++ part ++ after ∧ start = before.utf8ByteSize ∧
    stop = start + part.utf8ByteSize

/-- Whether a text has a sigil with one or more word characters at some bytes. -/
def IsRun (text : String) (start stop : Nat) : Prop :=
  ∃ token, IsWhole token ∧ LiesAt text token start stop

/-- Whether a text has a run at some bytes that is not part of a longer one. -/
structure IsMaximalRun (text : String) (start stop : Nat) : Prop where
  isRun : IsRun text start stop
  longest : ∀ start' stop', IsRun text start' stop' → start' ≤ start → stop ≤ stop' →
    start' = start ∧ stop' = stop

theorem LiesAt.of_toList {text : String} {before part after : List Char}
    (h : text.toList = before ++ (part ++ after)) :
    LiesAt text (String.ofList part) (utf8Len before) (utf8Len before + utf8Len part) := by
  refine ⟨String.ofList before, String.ofList after, ?_, ?_, ?_⟩
  · rw [← String.toList_inj, h]
    simp
  · rw [String.utf8ByteSize_ofList]
  · rw [String.utf8ByteSize_ofList]

/-- A token in a text, with what is before it and what is behind, which does not go on with it. -/
structure Stands (text before token after : List Char) : Prop where
  text_eq : text = before ++ (token ++ after)
  whole : IsWhole (String.ofList token)
  ends : continues after = false

theorem spansFrom_append (start : Nat) (a b : List Piece) :
    spansFrom start (a ++ b) =
      spansFrom start a ++ spansFrom (start + utf8Len (a.flatMap Piece.chars)) b := by
  induction a generalizing start with
  | nil => rfl
  | cons piece rest ih =>
    rw [List.flatMap_cons, String.utf8Len_append, ← Nat.add_assoc, List.cons_append]
    cases piece with
    | plain c => exact ih _
    | token chars => exact congrArg _ (ih _)

/-- Tokens lie one behind the other. -/
theorem pairwise_spansFrom (start : Nat) (ps : List Piece) :
    (∀ span ∈ spansFrom start ps, start ≤ span.1) ∧
      (spansFrom start ps).Pairwise fun a b => a.2 ≤ b.1 := by
  induction ps generalizing start with
  | nil => exact ⟨by simp [spansFrom], .nil⟩
  | cons piece rest ih =>
    cases piece with
    | plain c =>
      obtain ⟨hstart, hrest⟩ := ih (start + utf8Len [c])
      exact ⟨fun span hspan => (Nat.le_add_right _ _).trans (hstart span hspan), hrest⟩
    | token chars =>
      obtain ⟨hstart, hrest⟩ := ih (start + utf8Len chars)
      refine ⟨fun span hspan => ?_, List.pairwise_cons.2 ⟨hstart, hrest⟩⟩
      rcases List.mem_cons.1 hspan with rfl | hspan
      · exact Nat.le_refl _
      · exact (Nat.le_add_right _ _).trans (hstart span hspan)

/-- A token that stands in a text is a piece of it. -/
theorem Stands.pieces {text before token after : List Char} (h : Stands text before token after) :
    pieces text = pieces before ++ .token token :: pieces after := by
  have hfresh := h.whole.not_continues after
  have htoken := h.whole.pieces
  rw [String.toList_ofList] at hfresh htoken
  rw [h.text_eq, pieces_append _ hfresh, pieces_append _ h.ends, htoken, List.singleton_append]

theorem Stands.behind {text before token after : List Char} (h : Stands text before token after)
    (front : List Char) : Stands (front ++ text) (front ++ before) token after :=
  ⟨by rw [h.text_eq, List.append_assoc], h.whole, h.ends⟩

/-- The tokens that are pieces of a text are those that stand in it. -/
theorem mem_spansFrom_iff {text : List Char} {n start stop : Nat} :
    (start, stop) ∈ spansFrom n (Token.pieces text) ↔
      ∃ before token after, Stands text before token after ∧ start = n + utf8Len before ∧
        stop = start + utf8Len token := by
  constructor
  · intro h
    fun_induction Token.pieces text generalizing n with
    | case1 => cases h
    | case2 c rest htoken ih =>
      have htext : c :: rest =
          (c :: rest.takeWhile isWordChar) ++ rest.dropWhile isWordChar := by
        rw [List.cons_append, List.takeWhile_append_dropWhile]
      rcases List.mem_cons.1 h with h | h
      · cases h
        exact ⟨[], _, _, ⟨htext, isWhole_of_takeWhile htoken.1 htoken.2, continues_dropWhile rest⟩,
          rfl, rfl⟩
      · obtain ⟨before, token, after, hstands, rfl, rfl⟩ := ih h
        refine ⟨_, token, after, htext ▸ hstands.behind _, ?_, rfl⟩
        rw [String.utf8Len_append, Nat.add_assoc]
    | case3 c rest hplain ih =>
      obtain ⟨before, token, after, hstands, rfl, rfl⟩ := ih h
      refine ⟨_, token, after, hstands.behind [c], ?_, rfl⟩
      rw [String.utf8Len_append, Nat.add_assoc]
  · rintro ⟨before, token, after, h, rfl, rfl⟩
    rw [h.pieces, spansFrom_append, flatMap_chars_pieces]
    simp [spansFrom]

/-- A token that ends where it cannot go on is not part of another. -/
theorem Stands.eq_of_within {text before token after before' token' after' : List Char}
    (h : Stands text before token after) (htext : text = before' ++ (token' ++ after'))
    (hwhole : IsWhole (String.ofList token')) (hstart : utf8Len before' ≤ utf8Len before)
    (hstop : utf8Len before + utf8Len token ≤ utf8Len before' + utf8Len token') :
    before' = before ∧ token' = token := by
  obtain ⟨between, rfl, hbetween⟩ := exists_append_of_utf8Len_le (htext.symm.trans h.text_eq) hstart
  obtain ⟨more, rfl, hmore⟩ :
      ∃ more, token' = between ++ token ++ more ∧ after = more ++ after' := by
    refine exists_append_of_utf8Len_le (by rw [List.append_assoc, hbetween]) ?_
    simp only [String.utf8Len_append] at hstop ⊢
    omega
  obtain ⟨sigil, hs, ht⟩ := h.whole
  obtain ⟨word, hword, -, -⟩ := isToken_iff.1 ht
  obtain ⟨sigil', -, ht'⟩ := hwhole
  obtain ⟨word', hword', -, hchars⟩ := isToken_iff.1 ht'
  rw [String.toList_ofList] at hword hword'
  cases between with
  | cons c between =>
    -- the sigil of the token would be a word character of the other
    have hmem : sigil ∈ word' := by
      rw [← (List.cons.inj hword').2, hword]
      simp
    exact absurd (hchars sigil hmem) (by simp [isWordChar_of_isSigil hs])
  | nil =>
    cases more with
    | nil => simp
    | cons c more =>
      -- the token would go on where it ends
      have hmem : c ∈ word' := by
        rw [hword] at hword'
        rw [← (List.cons.inj hword').2]
        simp
      have hends : isWordChar c = false := by simpa [hmore, continues] using h.ends
      exact absurd (hchars c hmem) (by simp [hends])

/-- A token with one more word character is a token. -/
theorem IsWhole.append {token : List Char} (h : IsWhole (String.ofList token)) {c : Char}
    (hc : isWordChar c = true) : IsWhole (String.ofList (token ++ [c])) := by
  obtain ⟨sigil, hs, ht⟩ := h
  obtain ⟨word, hword, -, hchars⟩ := isToken_iff.1 ht
  rw [String.toList_ofList] at hword
  refine ⟨sigil, hs, isToken_iff.2 ⟨word ++ [c], by simp [hword], by simp, fun d hd => ?_⟩⟩
  rcases List.mem_append.1 hd with hd | hd
  · exact hchars d hd
  · rwa [List.mem_singleton.1 hd]

/-- Runs in terms of characters. -/
theorem isRun_iff {text : String} {start stop : Nat} :
    IsRun text start stop ↔
      ∃ before token after, text.toList = before ++ (token ++ after) ∧
        IsWhole (String.ofList token) ∧ start = utf8Len before ∧ stop = start + utf8Len token := by
  constructor
  · rintro ⟨token, hwhole, before, after, rfl, rfl, rfl⟩
    exact ⟨before.toList, token.toList, after.toList, by simp, by simpa using hwhole,
      by rw [String.utf8Len_toList], by rw [String.utf8Len_toList]⟩
  · rintro ⟨before, token, after, htext, hwhole, rfl, rfl⟩
    exact ⟨_, hwhole, LiesAt.of_toList htext⟩

/-- **Tokens are the maximal runs.** -/
theorem mem_spans_iff {text : String} {start stop : Nat} :
    (start, stop) ∈ spans text ↔ IsMaximalRun text start stop := by
  rw [spans, mem_spansFrom_iff]
  constructor
  · rintro ⟨before, token, after, h, rfl, rfl⟩
    rw [Nat.zero_add]
    refine ⟨isRun_iff.2 ⟨before, token, after, h.text_eq, h.whole, rfl, rfl⟩, ?_⟩
    intro start' stop' hrun hstart hstop
    obtain ⟨before', token', after', htext, hwhole, rfl, rfl⟩ := isRun_iff.1 hrun
    obtain ⟨rfl, rfl⟩ := h.eq_of_within htext hwhole hstart hstop
    exact ⟨rfl, rfl⟩
  · rintro ⟨hrun, hlongest⟩
    obtain ⟨before, token, after, htext, hwhole, rfl, rfl⟩ := isRun_iff.1 hrun
    refine ⟨before, token, after, ⟨htext, hwhole, ?_⟩, (Nat.zero_add _).symm, rfl⟩
    cases after with
    | nil => rfl
    | cons c rest =>
      -- with one more word character the run would be longer
      rw [continues, ← Bool.not_eq_true]
      intro hc
      have hrun := isRun_iff.2
        ⟨before, token ++ [c], rest, by simpa using htext, hwhole.append hc, rfl, rfl⟩
      have hsame := (hlongest _ _ hrun le_rfl (by rw [String.utf8Len_append]; omega)).2
      rw [String.utf8Len_append] at hsame
      cases String.utf8Len_eq_zero.1 (show utf8Len [c] = 0 by omega)

/-- Tokens lie where their spans say. -/
theorem liesAt_spans (text : String) :
    List.Forall₂ (fun token span => LiesAt text token span.1 span.2) (tokens text)
      (spans text) := by
  have hlie (front : List Char) (ps : List Piece)
      (htext : text.toList = front ++ ps.flatMap Piece.chars) :
      List.Forall₂ (fun token span => LiesAt text token span.1 span.2)
        (ps.filterMap Piece.token?) (spansFrom (utf8Len front) ps) := by
    induction ps generalizing front with
    | nil => exact .nil
    | cons piece rest ih =>
      have hrest := ih (front ++ piece.chars) (by simpa using htext)
      rw [String.utf8Len_append] at hrest
      cases piece with
      | plain c => exact hrest
      | token chars =>
        exact .cons (LiesAt.of_toList htext) hrest
  exact hlie [] _ (flatMap_chars_pieces _).symm

/-! ### The cursor -/

/-- A text copied from a cursor on, with what lies at spans replaced if there is a replacement. What
is not replaced waits behind the cursor until something is, or the text ends. -/
def splice (replace : String → Option String) (text : String) (cursor : Nat) :
    (spans : List (Nat × Nat)) → String
  | [] => String.Pos.Raw.extract text ⟨cursor⟩ text.rawEndPos
  | (start, stop) :: rest =>
    match replace (String.Pos.Raw.extract text ⟨start⟩ ⟨stop⟩) with
    | some replacement =>
      String.Pos.Raw.extract text ⟨cursor⟩ ⟨start⟩ ++ replacement ++ splice replace text stop rest
    | none => splice replace text cursor rest

/-- The bytes of a part of a text are the part. -/
theorem extract_eq {text : String} {before part after : List Char}
    (h : text.toList = before ++ (part ++ after)) :
    String.Pos.Raw.extract text ⟨utf8Len before⟩ ⟨utf8Len before + utf8Len part⟩ =
      String.ofList part := by
  rw [← String.ofList_toList (s := text), h, ← List.append_assoc]
  exact String.extract_of_valid before part after

theorem splice_spansFrom (replace : String → Option String) {text : String}
    (done kept : List Char) (ps : List Piece)
    (htext : text.toList = done ++ (kept ++ ps.flatMap Piece.chars)) :
    splice replace text (utf8Len done) (spansFrom (utf8Len (done ++ kept)) ps) =
      String.ofList (kept ++ ps.flatMap (Piece.substitute replace)) := by
  induction ps generalizing done kept with
  | nil =>
    have hend : text.rawEndPos = ⟨utf8Len done + utf8Len kept⟩ := by
      rw [← String.ofList_toList (s := text), String.rawEndPos_ofList, htext]
      simp
    rw [spansFrom, splice, hend, extract_eq htext]
    simp
  | cons piece rest ih =>
    cases piece with
    | plain c =>
      have hrest := ih done (kept ++ [c]) (by simpa [Piece.chars] using htext)
      simpa [spansFrom, Piece.substitute, Nat.add_assoc] using hrest
    | token chars =>
      have htoken : text.toList = (done ++ kept) ++ (chars ++ rest.flatMap Piece.chars) := by
        simpa [Piece.chars] using htext
      rw [spansFrom, splice, extract_eq htoken]
      cases h : replace (String.ofList chars) with
      | none =>
        have hrest := ih done (kept ++ chars) (by simpa using htoken)
        simpa [Piece.substitute, h, Nat.add_assoc] using hrest
      | some replacement =>
        have hkept : String.Pos.Raw.extract text ⟨utf8Len done⟩ ⟨utf8Len (done ++ kept)⟩ =
            String.ofList kept := by
          rw [String.utf8Len_append]
          exact extract_eq htext
        have hrest := ih (done ++ kept ++ chars) [] (by simpa using htoken)
        rw [List.append_nil, String.utf8Len_append] at hrest
        show String.Pos.Raw.extract text _ _ ++ replacement ++ splice replace text _ _ = _
        rw [hkept, hrest]
        simp [Piece.substitute, h, String.append_assoc]

/-- Substitution moves a cursor over a text. -/
theorem splice_spans (replace : String → Option String) (text : String) :
    splice replace text 0 (spans text) = substitute replace text :=
  splice_spansFrom replace [] [] _ (flatMap_chars_pieces _).symm

/-! ### What lies between tokens -/

/-- The characters before, between and behind the tokens among pieces. -/
def gapsOf : List Piece → List (List Char)
  | [] => [[]]
  | .plain c :: rest => (gapsOf rest).modifyHead (c :: ·)
  | .token _ :: rest => [] :: gapsOf rest

/-- The texts before, between and behind the tokens of a text. -/
def gaps (text : String) : List String := (gapsOf (pieces text.toList)).map String.ofList

/-- Texts with tokens between them. -/
def weave : List String → List String → String
  | [], _ => ""
  | gap :: _, [] => gap
  | gap :: gaps, token :: tokens => gap ++ token ++ weave gaps tokens

theorem weave_append (text gap : String) (gaps tokens : List String) :
    weave ((text ++ gap) :: gaps) tokens = text ++ weave (gap :: gaps) tokens := by
  cases tokens with
  | nil => rfl
  | cons token tokens => simp only [weave, String.append_assoc]

theorem length_gapsOf (ps : List Piece) :
    (gapsOf ps).length = (ps.filterMap Piece.token?).length + 1 := by
  induction ps with
  | nil => rfl
  | cons piece rest ih =>
    cases piece with
    | plain c => exact List.length_modifyHead.trans ih
    | token chars => exact congrArg (· + 1) ih

theorem length_gaps (text : String) : (gaps text).length = (tokens text).length + 1 := by
  rw [gaps, List.length_map, length_gapsOf, tokens]

/-- Pieces with their tokens replaced are the new tokens with the gaps of the old between them. -/
theorem weave_gapsOf (replace : String → Option String) (ps : List Piece) :
    weave ((gapsOf ps).map String.ofList)
        ((ps.filterMap Piece.token?).map fun token => (replace token).getD token) =
      String.ofList (ps.flatMap (Piece.substitute replace)) := by
  induction ps with
  | nil => rfl
  | cons piece rest ih =>
    rw [List.flatMap_cons, String.ofList_append, ← ih]
    cases piece with
    | plain c =>
      obtain ⟨gap, gaps, hgaps⟩ := List.exists_cons_of_length_eq_add_one (length_gapsOf rest)
      have hfirst : (gapsOf (.plain c :: rest)).map String.ofList =
          (String.ofList [c] ++ String.ofList gap) :: gaps.map String.ofList := by
        rw [gapsOf, hgaps, ← String.ofList_append]
        rfl
      rw [hfirst, hgaps]
      exact weave_append _ _ _ _
    | token chars =>
      have hfirst : String.ofList ((Piece.token chars).substitute replace) =
          (replace (String.ofList chars)).getD (String.ofList chars) := by
        cases h : replace (String.ofList chars) <;> simp [Piece.substitute, h]
      rw [hfirst]
      exact congrArg (· ++ weave _ _) String.empty_append

/-- A text is its tokens with its gaps between them. -/
theorem weave_gaps (text : String) : weave (gaps text) (tokens text) = text := by
  have h := weave_gapsOf (fun _ => none) (pieces text.toList)
  have hsame : (Piece.substitute fun _ => none) = Piece.chars := by
    funext piece
    cases piece <;> rfl
  rw [hsame, flatMap_chars_pieces, String.ofList_toList] at h
  simpa [gaps, tokens] using h

/-- Renamed tokens have the same gaps between them. -/
theorem gapsOf_rename (replace : String → Option String) (ps : List Piece) :
    gapsOf (ps.map (Piece.rename replace)) = gapsOf ps := by
  induction ps with
  | nil => rfl
  | cons piece rest ih =>
    cases piece with
    | plain c => exact congrArg (List.modifyHead (c :: ·)) ih
    | token chars => exact congrArg ([] :: ·) ih

/-! ### Substitution -/

/-- A substitution after which another is made. -/
def andThen (f g : String → Option String) (token : String) : Option String :=
  match f token with
  | some replacement => some ((g replacement).getD replacement)
  | none => g token

theorem Piece.substitute_rename (f g : String → Option String) (piece : Piece) :
    (piece.rename f).substitute g = piece.substitute (andThen f g) := by
  cases piece with
  | plain c => rfl
  | token chars =>
    cases hf : f (String.ofList chars) with
    | none => simp [rename, substitute, andThen, hf]
    | some u => cases hg : g u <;> simp [rename, substitute, andThen, hf, hg]

section Substitution
variable {f : String → Option String}

/-- The text between tokens stays as it is. -/
theorem gaps_substitute (whole : ∀ t u, f t = some u → IsWhole u) (text : String) :
    gaps (substitute f text) = gaps text := by
  rw [gaps, pieces_substitute whole, gapsOf_rename, gaps]

/-- Two substitutions are one. -/
theorem substitute_substitute (whole : ∀ t u, f t = some u → IsWhole u)
    (g : String → Option String) (text : String) :
    substitute g (substitute f text) = substitute (andThen f g) text := by
  rw [substitute, pieces_substitute whole, List.flatMap_map, substitute]
  simp only [Piece.substitute_rename]

/-- **Substitution is a homomorphism on tokens.** The tokens of a text lie at its maximal runs of a
sigil with word characters, one behind the other; these are what a cursor passes that substitutes.
The text is its tokens with its gaps between them. Where tokens are replaced by tokens, the new text
has the old tokens, each replaced if there is a replacement, and the old gaps, and another
substitution acts on it as one made at once. -/
theorem substitution_homomorphic (text : String) (f g : String → Option String)
    (whole : ∀ t u, f t = some u → IsWhole u) :
    ((∀ start stop, (start, stop) ∈ spans text ↔ IsMaximalRun text start stop) ∧
      (spans text).Pairwise (fun a b => a.2 ≤ b.1) ∧
      List.Forall₂ (fun token span => LiesAt text token span.1 span.2) (tokens text)
        (spans text) ∧
      splice f text 0 (spans text) = substitute f text) ∧
    ((gaps text).length = (tokens text).length + 1 ∧ weave (gaps text) (tokens text) = text) ∧
    tokens (substitute f text) = (tokens text).map (fun t => (f t).getD t) ∧
    gaps (substitute f text) = gaps text ∧
    substitute g (substitute f text) = substitute (andThen f g) text :=
  ⟨⟨fun _ _ => mem_spans_iff, (pairwise_spansFrom 0 _).2, liesAt_spans text, splice_spans f text⟩,
    ⟨length_gaps text, weave_gaps text⟩, tokens_substitute whole text,
    gaps_substitute whole text, substitute_substitute whole g text⟩

/-- Tokens at the seams: next to one another, behind sigils that begin none, and replaced by longer
ones, by each other and by what is replaced in turn. -/
theorem substitution_homomorphic_seams :
    let f : String → Option String := fun t =>
      if t = "#a" then some ":longer" else if t = "#b" then some "#a" else none
    let g : String → Option String := fun t =>
      if t = "#a" then some "#y_9" else if t = ":c9" then some "#z" else none
    let text := "é##a#b:: :c9€#"
    (∀ t u, f t = some u → IsWhole u) ∧
    spans text = [(3, 5), (5, 7), (10, 13)] ∧
    substitute f text = "é#:longer#a:: :c9€#" ∧
    substitute g (substitute f text) = "é#:longer#y_9:: #z€#" := by
  intro f g text
  have whole : ∀ t u, f t = some u → IsWhole u := by
    intro t u h
    simp only [f] at h
    split at h
    · cases h
      exact ⟨':', by decide, by decide⟩
    · split at h
      · cases h
        exact ⟨'#', by decide, by decide⟩
      · cases h
  obtain ⟨⟨-, -, -, hsplice⟩, -, -, -, htwice⟩ := substitution_homomorphic text f g whole
  have hspans : spans text = [(3, 5), (5, 7), (10, 13)] := by decide +kernel
  refine ⟨whole, hspans, ?_, ?_⟩
  · rw [← hsplice, hspans]
    decide +kernel
  · rw [htwice]
    decide +kernel

end Substitution

end TableClient.Token
