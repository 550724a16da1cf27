import TableClient.Proofs.Minimal

/-! Canonical forms are fixed.

Bindings are normal for texts if no two of them have the same target and the texts use their
tokens, which are numbered, in their order (`IsNormal`). Of normal bindings none is folded away,
every token gets the number that it has, and nothing is left to replace (`IsNormal.optimize_eq`).
What optimization comes to is normal, so to optimize it again changes nothing
(`optimize_idempotent`). -/
namespace TableClient

/-- A text whose tokens are only replaced by themselves. -/
theorem Token.substitute_eq_self {replace : String → Option String} {text : String}
    (h : ∀ token ∈ tokens text, ∀ u, replace token = some u → u = token) :
    substitute replace text = text := by
  have same : ∀ piece ∈ pieces text.toList, piece.substitute replace = piece.chars := by
    intro piece occurs
    cases piece with
    | plain c => rfl
    | token chars =>
      have used : String.ofList chars ∈ tokens text := List.mem_filterMap.2 ⟨_, occurs, rfl⟩
      cases replaced : replace (String.ofList chars) with
      | none => simp [Piece.substitute, Piece.chars, replaced]
      | some u => simp [Piece.substitute, Piece.chars, replaced, h _ used u replaced]
  rw [substitute, List.flatMap_congr same, flatMap_chars_pieces, String.ofList_toList]

namespace Bindings

/-! ### Folding and numbering with nothing to do -/

/-- Where no two targets are the same, folding keeps all bindings. -/
theorem fold_of_pairwise {α : Type} {same : α → α → Bool} {bindings : List (String × α)}
    (differ : bindings.Pairwise fun first later => same first.2 later.2 = false) :
    fold same bindings = ⟨bindings, []⟩ := by
  induction bindings using List.reverseRecOn with
  | nil => rfl
  | append_singleton bindings binding ih =>
    obtain ⟨earlier, -, last⟩ := List.pairwise_append.1 differ
    have fresh : bindings.find? (fun first => same first.2 binding.2) = none := by
      rw [List.find?_eq_none]
      intro first member equal
      exact Bool.false_ne_true ((last first member binding (by simp)).symm.trans equal)
    rw [fold, List.foldl_append, show bindings.foldl (Folded.add same) ⟨[], []⟩ = _ from ih earlier]
    show Folded.add same ⟨bindings, []⟩ binding = _
    simp [Folded.add, fresh]

/-- Tokens that are the numbered ones in order keep their names when they are numbered. -/
theorem number_eq_self {canonical : Nat → String} {tokens : List String} {n : Nat}
    (numbered : tokens = (List.range n).map canonical) :
    number canonical tokens = tokens.map fun token => (token, token) := by
  have names : (number canonical tokens).map Prod.snd = tokens := by
    rw [map_snd_number, numbered, List.length_map, List.length_range]
  rw [← List.zip_unzip (number canonical tokens), List.unzip_eq_map, map_fst_number, names,
    List.zip_eq_zipWith, List.zipWith_self]

/-- Bindings whose tokens keep their names stay as they are. -/
theorem rebind_self {α : Type} {bindings : List (String × α)}
    (distinct : (bindings.map Prod.fst).Nodup) :
    rebind (KeyMap.ofList bindings) ((bindings.map Prod.fst).map fun token => (token, token)) =
      bindings := by
  have kept : ∀ entry ∈ bindings,
      ((KeyMap.ofList bindings).get? entry.1).map (fun target => (entry.1, target)) =
        some entry := by
    intro entry member
    rw [KeyMap.get?_ofList_of_mem distinct (show (entry.1, entry.2) ∈ bindings from member)]
    rfl
  rw [rebind, List.map_map, List.filterMap_map]
  calc
    bindings.filterMap _ = bindings.filterMap some := List.filterMap_congr kept
    _ = bindings := List.filterMap_some

/-! ### Normal bindings -/

/-- Texts use bindings that are in canonical form. -/
structure IsNormal (texts : List String) (b : Bindings) : Prop where
  name_tokens : ∃ n, b.names.map Prod.fst = (List.range n).map nameToken
  value_tokens : ∃ n, b.values.map Prod.fst = (List.range n).map valueToken
  /-- The texts, read in sequence, use the tokens first in the order of the bindings. -/
  name_order : (texts.flatMap Token.tokens).eraseDups.filter (Token.isToken Token.nameSigil) =
    b.names.map Prod.fst
  value_order : (texts.flatMap Token.tokens).eraseDups.filter (Token.isToken Token.valueSigil) =
    b.values.map Prod.fst
  names_differ : (b.names.map Prod.snd).Nodup
  values_differ : b.values.Pairwise fun first later => first.2.sameAs later.2 = false

namespace IsNormal
variable {texts : List String} {b : Bindings}

theorem nodup_names (h : IsNormal texts b) : (b.names.map Prod.fst).Nodup := by
  obtain ⟨n, tokens⟩ := h.name_tokens
  rw [tokens]
  exact List.nodup_range.map nameToken_injective

theorem nodup_values (h : IsNormal texts b) : (b.values.map Prod.fst).Nodup := by
  obtain ⟨n, tokens⟩ := h.value_tokens
  rw [tokens]
  exact List.nodup_range.map valueToken_injective

/-- Where the tokens that pass a test are those that are bound, to be bound is to pass it. -/
theorem isSome_get?_eq {α : Type} {bindings : List (String × α)} {used : List String}
    {test : String → Bool} (order : used.filter test = bindings.map Prod.fst) {token : String}
    (occurs : token ∈ used) : ((KeyMap.ofList bindings).get? token).isSome = test token := by
  rw [Bool.eq_iff_iff, ← KeyMap.mem_keyList, KeyMap.mem_keyList_ofList, ← order, List.mem_filter]
  exact ⟨fun bound => bound.2, fun passes => ⟨occurs, passes⟩⟩

/-- Normal bindings are renumbered to themselves: every token gets the name that it has. -/
theorem renumber_eq (h : IsNormal texts b) :
    renumber texts b.nameMap b.valueMap =
      { substitute := Token.substitute fun token =>
          ((b.names.map Prod.fst ++ b.values.map Prod.fst).map fun t => (t, t)).lookup token
        bindings := b } := by
  have names : (texts.flatMap Token.tokens).eraseDups.filter (fun token =>
      (b.nameMap.get? token).isSome) = b.names.map Prod.fst := by
    rw [← h.name_order]
    exact List.filter_congr fun token used => isSome_get?_eq h.name_order used
  have values : (texts.flatMap Token.tokens).eraseDups.filter (fun token =>
      (b.nameMap.get? token).isNone && (b.valueMap.get? token).isSome) = b.values.map Prod.fst := by
    rw [← h.value_order]
    refine List.filter_congr fun token used => ?_
    rw [valueMap, isSome_get?_eq h.value_order used, ← Option.not_isSome, nameMap,
      isSome_get?_eq h.name_order used]
    -- a token has one sigil
    by_cases value : Token.isToken Token.valueSigil token = true
    · have other : Token.isToken Token.nameSigil token = false :=
        Bool.eq_false_iff.2 fun name => absurd (Token.isToken_sigil name value) (by decide)
      rw [value, other]
      rfl
    · rw [Bool.eq_false_iff.2 value, Bool.and_false]
  obtain ⟨m, name_tokens⟩ := h.name_tokens
  obtain ⟨n, value_tokens⟩ := h.value_tokens
  simp only [renumber, names, values, number_eq_self name_tokens, number_eq_self value_tokens]
  rw [nameMap, valueMap, rebind_self h.nodup_names, rebind_self h.nodup_values, ← List.map_append]

/-- Normal bindings are their own canonical form. -/
theorem optimize_eq (h : IsNormal texts b) : optimize texts b = (texts, b) := by
  have unfolded : Token.substitute (KeyMap.ofList ([] : List (String × String))).get? = id := by
    funext text
    exact Token.substitute_eq_self fun token _ u replaced => by
      cases KeyMap.mem_of_get?_ofList replaced
  have names : fold (fun first later => decide (first = later)) b.names = ⟨b.names, []⟩ := by
    apply fold_of_pairwise
    refine (List.pairwise_map.1 h.names_differ).imp fun differ => ?_
    exact decide_eq_false differ
  have form : canonical texts b = renumber texts b.nameMap b.valueMap := by
    simp only [canonical, names, fold_of_pairwise h.values_differ, List.append_nil, unfolded,
      List.map_id, id]
    rfl
  rw [optimize, form, h.renumber_eq]
  refine Prod.ext ?_ rfl
  refine (List.map_congr_left fun text _ => ?_).trans (List.map_id texts)
  refine Token.substitute_eq_self fun token _ u replaced => ?_
  obtain ⟨t, -, same⟩ := List.mem_map.1 (mem_of_lookup replaced)
  obtain ⟨rfl, rfl⟩ := Prod.mk.inj same
  rfl

end IsNormal

/-- What optimization comes to is normal. -/
theorem Proper.isNormal_canonical {b : Bindings} (h : b.Proper) {texts : List String}
    (bound : ∀ token ∈ texts.flatMap Token.tokens, b.Binds token) :
    IsNormal (texts.map (canonical texts b).substitute) (canonical texts b).bindings where
  name_tokens := ⟨_, h.map_fst_names texts⟩
  value_tokens := ⟨_, h.map_fst_values texts⟩
  name_order := h.filter_names bound
  value_order := h.filter_values bound
  names_differ := by
    rw [h.map_snd_names]
    exact nodup_eraseDups _
  values_differ := by
    have classes : ((canonical texts b).bindings.values.map fun entry =>
        entry.2.normalized).Nodup := by
      rw [h.map_normalized_values]
      exact nodup_eraseDups _
    refine (List.pairwise_map.1 classes).imp fun differ => ?_
    exact Bool.eq_false_iff.2 fun same => differ ((sameAs_iff _ _).1 same)

/-- **Optimization is idempotent.** If every token of the texts is bound, texts and bindings in
canonical form are not changed by bringing them into it again. -/
theorem optimize_idempotent (texts : List String) (b : Bindings) (h : b.Proper)
    (bound : ∀ text ∈ texts, ∀ token ∈ Token.tokens text, b.Binds token) :
    optimize (optimize texts b).1 (optimize texts b).2 = optimize texts b := by
  apply IsNormal.optimize_eq
  apply h.isNormal_canonical
  intro token used
  obtain ⟨text, member, occurs⟩ := List.mem_flatMap.1 used
  exact bound text member token occurs

/-- Two of the names are equal, two of the values are the same set, one binding is unused, and the
tokens are spelled like the canonical ones in another order. -/
theorem optimize_idempotent_swapped :
    optimize ["#n1 = :v1 AND #n2 < :v0", "#n0"]
      ⟨[("#n0", "p"), ("#n1", "q"), ("#n2", "p"), ("#n3", "r")],
        [(":v0", .numberSet ["1", "2"]), (":v1", .numberSet ["2", "1"])]⟩ =
      (["#n0 = :v0 AND #n1 < :v0", "#n1"],
        ⟨[("#n0", "q"), ("#n1", "p")], [(":v0", .numberSet ["1", "2"])]⟩) ∧
    optimize ["#n0 = :v0 AND #n1 < :v0", "#n1"]
      ⟨[("#n0", "q"), ("#n1", "p")], [(":v0", .numberSet ["1", "2"])]⟩ =
      (["#n0 = :v0 AND #n1 < :v0", "#n1"],
        ⟨[("#n0", "q"), ("#n1", "p")], [(":v0", .numberSet ["1", "2"])]⟩) := by
  have optimized : optimize ["#n1 = :v1 AND #n2 < :v0", "#n0"]
      ⟨[("#n0", "p"), ("#n1", "q"), ("#n2", "p"), ("#n3", "r")],
        [(":v0", .numberSet ["1", "2"]), (":v1", .numberSet ["2", "1"])]⟩ =
      (["#n0 = :v0 AND #n1 < :v0", "#n1"],
        ⟨[("#n0", "q"), ("#n1", "p")], [(":v0", .numberSet ["1", "2"])]⟩) := by
    decide +kernel
  have again := optimize_idempotent ["#n1 = :v1 AND #n2 < :v0", "#n0"]
    ⟨[("#n0", "p"), ("#n1", "q"), ("#n2", "p"), ("#n3", "r")],
      [(":v0", .numberSet ["1", "2"]), (":v1", .numberSet ["2", "1"])]⟩
    (by decide) (by decide +kernel)
  rw [optimized] at again
  exact ⟨optimized, again⟩

end Bindings

end TableClient
