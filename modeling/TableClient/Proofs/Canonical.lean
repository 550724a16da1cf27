import TableClient.Expression.Canonical
import Mathlib.Data.List.Induction
import TableClient.Proofs.Sense

/-! The canonical form of bindings keeps what texts say.

Folding leaves for every token one that is bound to the same target (`Folded.Covers`), and
renumbering gives each of these that is used a token of its own. Both replace whole tokens by
whole tokens, so a text read with the new bindings says what it said with the old ones
(`optimize_same`), even where a new token is spelled like an old one. -/
namespace TableClient.Bindings

/-! ### Folding -/

section Folding
variable {α : Type} {same : α → α → Bool}

/-- Every binding taken in is kept or has an alias that is kept. -/
structure Folded.Covers (same : α → α → Bool) (f : Folded α) (bindings : List (String × α)) :
    Prop where
  kept : f.kept.Sublist bindings
  aliases : (f.aliases.map Prod.fst).Sublist (bindings.map Prod.fst)
  targets : ∀ token first, (token, first) ∈ f.aliases → first ∈ f.kept.map Prod.fst
  stands : ∀ token target, (token, target) ∈ bindings →
    ∃ first, ((f.aliases.lookup token).getD token, first) ∈ f.kept ∧ same first target = true

theorem Folded.Covers.unaliased {f : Folded α} {bindings : List (String × α)}
    (h : f.Covers same bindings) {token : String} (new : token ∉ bindings.map Prod.fst) :
    f.aliases.lookup token = none :=
  lookup_eq_none fun member => new (h.aliases.subset member)

/-- Taking in a binding of a new token. -/
theorem Folded.Covers.add (refl : ∀ x, same x x = true) {f : Folded α}
    {bindings : List (String × α)} (h : f.Covers same bindings) (binding : String × α)
    (new : binding.1 ∉ bindings.map Prod.fst) :
    (f.add same binding).Covers same (bindings ++ [binding]) := by
  obtain ⟨token, target⟩ := binding
  have missing := h.unaliased new
  unfold Folded.add
  split
  · next first found =>
    have member := List.mem_of_find?_eq_some found
    refine ⟨h.kept.trans (List.sublist_append_left _ _), ?_, ?_, ?_⟩
    · simpa using h.aliases.append (List.Sublist.refl [token])
    · intro t u entry
      rcases List.mem_append.1 entry with old | new'
      · exact h.targets t u old
      · obtain ⟨rfl, rfl⟩ : t = token ∧ u = first.1 := by simpa using new'
        exact List.mem_map_of_mem member
    · intro t x bound
      rcases List.mem_append.1 bound with old | new'
      · have differs : t ≠ token := by
          intro same
          subst same
          exact new (List.mem_map.2 ⟨_, old, rfl⟩)
        rw [List.lookup_append, lookup_cons_of_ne differs, List.lookup_nil, Option.or_none]
        exact h.stands t x old
      · obtain ⟨rfl, rfl⟩ : t = token ∧ x = target := by simpa using new'
        rw [List.lookup_append, missing, Option.none_or, List.lookup_cons_self, Option.getD_some]
        exact ⟨first.2, member, by simpa using List.find?_some found⟩
  · next fresh =>
    refine ⟨h.kept.append (List.Sublist.refl _), ?_, ?_, ?_⟩
    · rw [List.map_append]
      exact h.aliases.trans (List.sublist_append_left _ _)
    · intro t u entry
      rw [List.map_append]
      exact List.mem_append_left _ (h.targets t u entry)
    · intro t x bound
      rcases List.mem_append.1 bound with old | new'
      · obtain ⟨first, member, equal⟩ := h.stands t x old
        exact ⟨first, List.mem_append_left _ member, equal⟩
      · obtain ⟨rfl, rfl⟩ : t = token ∧ x = target := by simpa using new'
        rw [missing]
        exact ⟨x, by simp, refl x⟩

/-- Folding covers all bindings. -/
theorem fold_covers (refl : ∀ x, same x x = true) {bindings : List (String × α)}
    (distinct : (bindings.map Prod.fst).Nodup) : (fold same bindings).Covers same bindings := by
  unfold fold
  induction bindings using List.reverseRecOn with
  | nil => exact ⟨.slnil, .slnil, by simp, by simp⟩
  | append_singleton bindings binding ih =>
    rw [List.map_append, List.nodup_append] at distinct
    rw [List.foldl_append]
    apply (ih distinct.1).add refl
    intro member
    exact distinct.2.2 _ member _ (by simp) rfl

end Folding

/-! ### Numbering -/

section Numbering
variable {canonical : Nat → String} {tokens : List String}

theorem map_fst_number : (number canonical tokens).map Prod.fst = tokens := by
  simp [number, Function.comp_def]

theorem mem_number {token name : String} (h : (token, name) ∈ number canonical tokens) :
    ∃ position, name = canonical position := by
  obtain ⟨⟨t, position⟩, -, equal⟩ := List.mem_map.1 h
  exact ⟨position, (Prod.mk.inj equal).2.symm⟩

theorem exists_mem_number (canonical : Nat → String) {token : String} (h : token ∈ tokens) :
    ∃ position, (token, canonical position) ∈ number canonical tokens := by
  have numbered : token ∈ (number canonical tokens).map Prod.fst := by rwa [map_fst_number]
  obtain ⟨⟨t, name⟩, member, rfl⟩ := List.mem_map.1 numbered
  obtain ⟨position, rfl⟩ := mem_number member
  exact ⟨position, member⟩

/-- Numbers are given from zero on. -/
theorem map_snd_number :
    (number canonical tokens).map Prod.snd = (List.range tokens.length).map canonical := by
  rw [List.range_eq_range', ← List.zipIdx_map_snd 0 tokens, List.map_map, number, List.map_map]
  rfl

/-- Numbers are given once. -/
theorem nodup_map_snd_number (injective : Function.Injective canonical) :
    ((number canonical tokens).map Prod.snd).Nodup := by
  rw [map_snd_number]
  exact List.nodup_range.map injective

variable {α : Type} {targets : KeyMap α}

theorem map_fst_rebind_sublist (numbered : List (String × String)) :
    ((rebind targets numbered).map Prod.fst).Sublist (numbered.map Prod.snd) := by
  unfold rebind
  induction numbered with
  | nil => exact .slnil
  | cons entry rest ih =>
    cases h : targets.get? entry.1 with
    | none => simpa [h] using ih.cons entry.2
    | some target => simpa [h] using ih.cons_cons entry.2

theorem mem_rebind {numbered : List (String × String)} {token name : String} {target : α}
    (member : (token, name) ∈ numbered) (bound : targets.get? token = some target) :
    (name, target) ∈ rebind targets numbered :=
  List.mem_filterMap.2 ⟨(token, name), member, by simp [bound]⟩

/-- The numbered token stands for what the token stood for. -/
theorem get?_rebind_number (injective : Function.Injective canonical) {token : String}
    {position : Nat} {target : α} (member : (token, canonical position) ∈ number canonical tokens)
    (bound : targets.get? token = some target) :
    (KeyMap.ofList (rebind targets (number canonical tokens))).get? (canonical position) =
      some target :=
  KeyMap.get?_ofList_of_mem
    ((nodup_map_snd_number injective).sublist (map_fst_rebind_sublist _))
    (mem_rebind member bound)

end Numbering

theorem isToken_nameToken (position : Nat) :
    Token.isToken Token.nameSigil (nameToken position) = true :=
  Token.isToken_numbered _ rfl position

theorem isToken_valueToken (position : Nat) :
    Token.isToken Token.valueSigil (valueToken position) = true :=
  Token.isToken_numbered _ rfl position

theorem nameToken_injective : Function.Injective nameToken := Token.numbered_injective _ "n"

theorem valueToken_injective : Function.Injective valueToken := Token.numbered_injective _ "v"

/-! ### Renumbering -/

/-- A canonical form replaces the bound tokens of texts by tokens that stand for the same. -/
structure Canonical.Renumbers (form : Canonical) (texts : List String) (b : Bindings)
    (replace : String → Option String) : Prop where
  substitute : form.substitute = Token.substitute replace
  whole : ∀ token u, replace token = some u → Token.IsWhole u
  name : ∀ token ∈ texts.flatMap Token.tokens, ∀ text, (token, text) ∈ b.names →
    form.bindings.sense.target ((replace token).getD token) = .name text
  value : ∀ token ∈ texts.flatMap Token.tokens, ∀ v, (token, v) ∈ b.values →
    form.bindings.sense.target ((replace token).getD token) = .value v
  other : ∀ token, ¬b.Binds token → replace token = none

theorem nodup_eraseDups {α : Type} [BEq α] [LawfulBEq α] (l : List α) : l.eraseDups.Nodup := by
  induction h : l.length using Nat.strongRecOn generalizing l with
  | ind n ih =>
    cases l with
    | nil => simp
    | cons first rest =>
      rw [List.eraseDups_cons, List.nodup_cons]
      refine ⟨by simp [List.mem_eraseDups], ih _ ?_ _ rfl⟩
      subst h
      exact Nat.lt_succ_of_le (List.length_filter_le _ _)

theorem lookup_number {canonical : Nat → String} {tokens : List String} (distinct : tokens.Nodup)
    {token name : String} (member : (token, name) ∈ number canonical tokens) :
    (number canonical tokens).lookup token = some name :=
  lookup_of_mem (by rwa [map_fst_number]) member

theorem lookup_number_eq_none {canonical : Nat → String} {tokens : List String} {token : String}
    (absent : token ∉ tokens) : (number canonical tokens).lookup token = none :=
  lookup_eq_none (by rwa [map_fst_number])

/-- Every canonical token is a token. -/
theorem isWhole_of_lookup_number {names values : List String} {token u : String}
    (renamed : (number nameToken names ++ number valueToken values).lookup token = some u) :
    Token.IsWhole u := by
  rcases List.mem_append.1 (mem_of_lookup renamed) with member | member
  · obtain ⟨position, rfl⟩ := mem_number member
    exact ⟨_, by decide, isToken_nameToken position⟩
  · obtain ⟨position, rfl⟩ := mem_number member
    exact ⟨_, by decide, isToken_valueToken position⟩

theorem exists_renumbers (texts : List String) {b : Bindings} (h : b.Proper) :
    ∃ replace, (renumber texts b.nameMap b.valueMap).Renumbers texts b replace := by
  refine ⟨_, rfl, fun _ _ => isWhole_of_lookup_number, ?_, ?_, ?_⟩
  · intro token used text bound
    have found : b.nameMap.get? token = some text :=
      KeyMap.get?_ofList_of_mem h.names_distinct bound
    obtain ⟨position, member⟩ := exists_mem_number nameToken
      (List.mem_filter (p := fun t => (b.nameMap.get? t).isSome).2
        ⟨List.mem_eraseDups.2 used, by simp [found]⟩)
    have renamed := lookup_number ((nodup_eraseDups _).filter _) member
    rw [List.lookup_append, renamed, Option.some_or, Option.getD_some]
    exact Sense.target_of_name (isToken_nameToken position)
      (get?_rebind_number nameToken_injective member found)
  · intro token used v bound
    have found : b.valueMap.get? token = some v :=
      KeyMap.get?_ofList_of_mem h.values_distinct bound
    have other : b.nameMap.get? token = none :=
      KeyMap.get?_ofList_eq_none fun name => h.disjoint name (List.mem_map_of_mem bound)
    obtain ⟨position, member⟩ := exists_mem_number valueToken
      (List.mem_filter
        (p := fun t => (b.nameMap.get? t).isNone && (b.valueMap.get? t).isSome).2
        ⟨List.mem_eraseDups.2 used, by simp [found, other]⟩)
    have renamed := lookup_number ((nodup_eraseDups _).filter _) member
    have unnamed : token ∉ (texts.flatMap Token.tokens).eraseDups.filter
        fun t => (b.nameMap.get? t).isSome := by
      simp [other]
    rw [List.lookup_append, lookup_number_eq_none unnamed, Option.none_or, renamed,
      Option.getD_some]
    exact Sense.target_of_value (isToken_valueToken position)
      (get?_rebind_number valueToken_injective member found)
  · intro token unbound
    have unnamed : b.nameMap.get? token = none :=
      KeyMap.get?_ofList_eq_none fun name => unbound (.inl name)
    have unvalued : b.valueMap.get? token = none :=
      KeyMap.get?_ofList_eq_none fun value => unbound (.inr value)
    rw [List.lookup_append, lookup_number_eq_none (by simp [unnamed]),
      lookup_number_eq_none (by simp [unvalued]), Option.or_none]

/-! ### The canonical form -/

/-- The bindings that folding keeps. -/
def keep (b : Bindings) : Bindings :=
  ⟨(fold (· = ·) b.names).kept, (fold AttributeValue.sameAs b.values).kept⟩

/-- The token that stands for each token after folding. -/
def aliases (b : Bindings) : KeyMap String :=
  KeyMap.ofList ((fold (· = ·) b.names).aliases ++ (fold AttributeValue.sameAs b.values).aliases)

section Proper
variable {b : Bindings} (h : b.Proper)
include h

theorem Proper.fold_names : (fold (fun a b => decide (a = b)) b.names).Covers
    (fun a b => decide (a = b)) b.names :=
  fold_covers (by simp) h.names_distinct

theorem Proper.fold_values :
    (fold AttributeValue.sameAs b.values).Covers AttributeValue.sameAs b.values :=
  fold_covers (by simp [AttributeValue.sameAs]) h.values_distinct

theorem Proper.keep : b.keep.Proper where
  names token member := h.names token ((h.fold_names.kept.map Prod.fst).subset member)
  values token member := h.values token ((h.fold_values.kept.map Prod.fst).subset member)
  names_distinct := h.names_distinct.sublist (h.fold_names.kept.map Prod.fst)
  values_distinct := h.values_distinct.sublist (h.fold_values.kept.map Prod.fst)

theorem Proper.get?_aliases (token : String) :
    b.aliases.get? token = ((fold (fun a b => decide (a = b)) b.names).aliases.lookup token).or
      ((fold AttributeValue.sameAs b.values).aliases.lookup token) := by
  rw [← List.lookup_append]
  apply KeyMap.get?_ofList_of_nodup
  rw [List.map_append, List.nodup_append]
  refine ⟨h.names_distinct.sublist h.fold_names.aliases,
    h.values_distinct.sublist h.fold_values.aliases, ?_⟩
  intro name hn value hv same
  subst same
  exact h.disjoint (h.fold_names.aliases.subset hn) (h.fold_values.aliases.subset hv)

/-- The token standing for a name token is kept for the same name. -/
theorem Proper.stands_name {token text : String} (bound : (token, text) ∈ b.names) :
    ((b.aliases.get? token).getD token, text) ∈ b.keep.names := by
  have other := h.fold_values.unaliased (h.disjoint (List.mem_map_of_mem bound))
  rw [h.get?_aliases, other, Option.or_none]
  obtain ⟨first, member, equal⟩ := h.fold_names.stands token text bound
  rwa [of_decide_eq_true equal] at member

/-- The token standing for a value token is kept for the same value, but for the order and
repetition of set members. -/
theorem Proper.stands_value {token : String} {v : AttributeValue} (bound : (token, v) ∈ b.values) :
    ∃ first, ((b.aliases.get? token).getD token, first) ∈ b.keep.values ∧
      first.sameAs v = true := by
  have other := h.fold_names.unaliased fun name =>
    h.disjoint name (List.mem_map_of_mem bound)
  rw [h.get?_aliases, other, Option.none_or]
  exact h.fold_values.stands token v bound

theorem Proper.isWhole_of_get?_aliases {token u : String}
    (renamed : b.aliases.get? token = some u) : Token.IsWhole u := by
  rcases List.mem_append.1 (KeyMap.mem_of_get?_ofList renamed) with member | member
  · exact ⟨_, by decide, h.keep.names u (h.fold_names.targets token u member)⟩
  · exact ⟨_, by decide, h.keep.values u (h.fold_values.targets token u member)⟩

/-- A token that is not bound is left by folding. -/
theorem Proper.get?_aliases_eq_none {token : String} (unbound : ¬b.Binds token) :
    b.aliases.get? token = none := by
  rw [h.get?_aliases, h.fold_names.unaliased fun name => unbound (.inl name),
    h.fold_values.unaliased fun value => unbound (.inr value), Option.or_none]

/-- Folding binds no other tokens. -/
theorem Proper.binds_of_keep {token : String} (kept : b.keep.Binds token) : b.Binds token :=
  kept.imp (fun name => (h.fold_names.kept.map Prod.fst).subset name)
    fun value => (h.fold_values.kept.map Prod.fst).subset value

/-- Bringing texts into canonical form replaces each bound token by one that stands for the same,
and leaves the others. -/
theorem Proper.exists_replacement (texts : List String) :
    ∃ replace : String → String,
      (∀ text, Token.pieces ((canonical texts b).substitute text).toList =
        (Token.pieces text.toList).map (Token.Piece.rename fun token => some (replace token))) ∧
      (∀ token ∈ texts.flatMap Token.tokens, b.Binds token →
        ((canonical texts b).bindings.sense.target (replace token)).Same
          (b.sense.target token)) ∧
      ∀ token, ¬b.Binds token → replace token = token := by
  have whole : ∀ token u, b.aliases.get? token = some u → Token.IsWhole u :=
    fun _ _ => h.isWhole_of_get?_aliases
  obtain ⟨replace, form⟩ :=
    exists_renumbers (texts.map (Token.substitute b.aliases.get?)) h.keep
  let stand token := (b.aliases.get? token).getD token
  refine ⟨fun token => (replace (stand token)).getD (stand token), ?_, ?_, ?_⟩
  · intro text
    have twice : (canonical texts b).substitute text =
        Token.substitute replace (Token.substitute b.aliases.get? text) := by
      rw [← form.substitute]
      rfl
    rw [twice, Token.pieces_substitute form.whole, Token.pieces_substitute whole, List.map_map]
    congr 1
    funext piece
    cases piece with
    | plain c => rfl
    | token chars =>
      simp only [Function.comp_apply, Token.Piece.rename_token, String.ofList_toList,
        Option.getD_some, stand]
  · intro token used bound
    have used' : stand token ∈
        (texts.map (Token.substitute b.aliases.get?)).flatMap Token.tokens := by
      obtain ⟨text, member, occurs⟩ := List.mem_flatMap.1 used
      refine List.mem_flatMap.2 ⟨_, List.mem_map_of_mem member, ?_⟩
      rw [Token.tokens_substitute whole]
      exact List.mem_map_of_mem occurs
    rcases bound with name | value
    · obtain ⟨⟨_, text⟩, member, rfl⟩ := List.mem_map.1 name
      have target := form.name _ used' text (h.stands_name member)
      rw [h.target_name member]
      exact (show _ = _ from target) ▸ .name text
    · obtain ⟨⟨_, v⟩, member, rfl⟩ := List.mem_map.1 value
      obtain ⟨first, kept, same⟩ := h.stands_value member
      have target := form.value _ used' first kept
      rw [h.target_value member]
      exact (show _ = _ from target) ▸ .value same
  · intro token unbound
    have unfolded : stand token = token := by
      simp only [stand, h.get?_aliases_eq_none unbound, Option.getD_none]
    have left := form.other token fun kept => unbound (h.binds_of_keep kept)
    show (replace (stand token)).getD (stand token) = token
    rw [unfolded, left, Option.getD_none]

/-- In canonical form, a text says what it said. -/
theorem Proper.read_canonical {texts : List String}
    (bound : ∀ text ∈ texts, ∀ token ∈ Token.tokens text, b.Binds token) {text : String}
    (member : text ∈ texts) :
    List.Forall₂ Symbol.Same
      ((canonical texts b).bindings.sense.read ((canonical texts b).substitute text).toList)
      (b.sense.read text.toList) := by
  obtain ⟨replace, pieces, target, -⟩ := h.exists_replacement texts
  rw [Sense.read, pieces, List.map_map, Sense.read, List.forall₂_map_left_iff,
    List.forall₂_map_right_iff, List.forall₂_same]
  intro piece occurs
  cases piece with
  | plain c => exact .plain c
  | token chars =>
    have used : String.ofList chars ∈ Token.tokens text :=
      List.mem_filterMap.2 ⟨_, occurs, rfl⟩
    rw [Function.comp_apply, Token.Piece.rename_token, Option.getD_some, Sense.symbol, Sense.symbol,
      String.ofList_toList]
    exact target _ (List.mem_flatMap.2 ⟨text, member, used⟩) (bound text member _ used)

end Proper

/-- **The canonical form keeps what texts say.** If every token is bound, each text read with the
new bindings says what it said with the old ones. -/
theorem optimize_same (texts : List String) (b : Bindings) (h : b.Proper)
    (bound : ∀ text ∈ texts, ∀ token ∈ Token.tokens text, b.Binds token) :
    List.Forall₂
      (fun after before => List.Forall₂ Symbol.Same
        ((optimize texts b).2.sense.read after.toList) (b.sense.read before.toList))
      (optimize texts b).1 texts := by
  rw [optimize, List.forall₂_map_left_iff, List.forall₂_same]
  exact fun text member => h.read_canonical bound member

/-- The old tokens are spelled like the new ones in another order, one of them goes on where
another ends, and two sets have the same members. -/
theorem optimize_same_swapped :
    optimize ["#n1 = :v1 AND #n10 < :v0", "#n0"]
      ⟨[("#n0", "a"), ("#n1", "b"), ("#n10", "a")],
        [(":v0", .numberSet ["1", "2"]), (":v1", .numberSet ["2", "1"])]⟩ =
      (["#n0 = :v0 AND #n1 < :v0", "#n1"],
        ⟨[("#n0", "b"), ("#n1", "a")], [(":v0", .numberSet ["1", "2"])]⟩) ∧
    List.Forall₂
      (fun after before => List.Forall₂ Symbol.Same
        (sense ⟨[("#n0", "b"), ("#n1", "a")], [(":v0", .numberSet ["1", "2"])]⟩ |>.read
          after.toList)
        (sense ⟨[("#n0", "a"), ("#n1", "b"), ("#n10", "a")],
          [(":v0", .numberSet ["1", "2"]), (":v1", .numberSet ["2", "1"])]⟩ |>.read
          before.toList))
      ["#n0 = :v0 AND #n1 < :v0", "#n1"] ["#n1 = :v1 AND #n10 < :v0", "#n0"] := by
  have optimized : optimize ["#n1 = :v1 AND #n10 < :v0", "#n0"]
      ⟨[("#n0", "a"), ("#n1", "b"), ("#n10", "a")],
        [(":v0", .numberSet ["1", "2"]), (":v1", .numberSet ["2", "1"])]⟩ =
      (["#n0 = :v0 AND #n1 < :v0", "#n1"],
        ⟨[("#n0", "b"), ("#n1", "a")], [(":v0", .numberSet ["1", "2"])]⟩) := by
    decide +kernel
  have same := optimize_same ["#n1 = :v1 AND #n10 < :v0", "#n0"]
    ⟨[("#n0", "a"), ("#n1", "b"), ("#n10", "a")],
      [(":v0", .numberSet ["1", "2"]), (":v1", .numberSet ["2", "1"])]⟩
    (by decide) (by decide +kernel)
  rw [optimized] at same
  exact ⟨optimized, same⟩

end TableClient.Bindings
