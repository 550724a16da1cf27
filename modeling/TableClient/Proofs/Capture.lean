import TableClient.Proofs.Minimal

/-! Tokens that are not bound.

Bringing texts into canonical form leaves the tokens that are not bound, wherever they stand among
others that are renamed (`Rewritten`). The tokens that it gives are counted from zero on, whatever
stands in the texts, as many as there are targets that the texts refer to (`taken`). So a token
that was not bound is bound afterwards if it is spelled like one of those, and only then
(`optimize_captures`): written by hand, it may come to stand for something. -/
namespace TableClient.Bindings

/-- What becomes of a piece of a text: a bound token becomes one that stands for the same in the new
bindings, and everything else stays. -/
inductive Rewritten (b c : Bindings) : Token.Piece → Token.Piece → Prop where
  | plain (char : Char) : Rewritten b c (.plain char) (.plain char)
  | bound {chars chars' : List Char} (h : b.Binds (String.ofList chars))
      (same : (c.sense.target (String.ofList chars')).Same
        (b.sense.target (String.ofList chars))) :
      Rewritten b c (.token chars) (.token chars')
  | unbound {chars : List Char} (h : ¬b.Binds (String.ofList chars)) :
      Rewritten b c (.token chars) (.token chars)

/-- The canonical tokens that are needed: one for each name that texts refer to, and one for each
class of the same values. -/
def taken (b : Bindings) (texts : List String) : List String :=
  let used := texts.flatMap Token.tokens
  let names := (used.filterMap b.nameMap.get?).eraseDups
  let values := ((used.filterMap b.valueMap.get?).map AttributeValue.normalized).eraseDups
  (List.range names.length).map nameToken ++ (List.range values.length).map valueToken

section Proper
variable {b : Bindings} (h : b.Proper)
include h

/-- The canonical form binds the tokens that are needed. -/
theorem Proper.binds_canonical_iff (texts : List String) (token : String) :
    (canonical texts b).bindings.Binds token ↔ token ∈ b.taken texts := by
  have names : (b.standingNames texts).length =
      ((texts.flatMap Token.tokens).filterMap b.nameMap.get?).eraseDups.length := by
    rw [← h.map_snd_names, List.length_map, ← List.length_map Prod.fst, h.map_fst_names,
      List.length_map, List.length_range]
  have values : (b.standingValues texts).length =
      (((texts.flatMap Token.tokens).filterMap b.valueMap.get?).map
        AttributeValue.normalized).eraseDups.length := by
    rw [← h.map_normalized_values, List.length_map, ← List.length_map Prod.fst, h.map_fst_values,
      List.length_map, List.length_range]
  rw [Binds, h.map_fst_names, h.map_fst_values, names, values, taken, List.mem_append]

/-- Every piece of a text stays or stands for the same. -/
theorem Proper.rewritten_canonical {texts : List String} {text : String} (member : text ∈ texts) :
    List.Forall₂ (Rewritten b (canonical texts b).bindings) (Token.pieces text.toList)
      (Token.pieces ((canonical texts b).substitute text).toList) := by
  obtain ⟨replace, pieces, target, other⟩ := h.exists_replacement texts
  rw [pieces, List.forall₂_map_right_iff, List.forall₂_same]
  intro piece occurs
  cases piece with
  | plain char => exact .plain char
  | token chars =>
    rw [Token.Piece.rename_token, Option.getD_some]
    by_cases bound : b.Binds (String.ofList chars)
    · have used : String.ofList chars ∈ texts.flatMap Token.tokens :=
        List.mem_flatMap.2 ⟨text, member, List.mem_filterMap.2 ⟨_, occurs, rfl⟩⟩
      apply Rewritten.bound bound
      rw [String.ofList_toList]
      exact target _ used bound
    · rw [other _ bound, String.toList_ofList]
      exact .unbound bound

end Proper

/-- **Optimization leaves the tokens that are not bound, and captures those of them that are spelled
like the tokens that it gives.** Every other piece of a text stays or stands for the same, and the
tokens that are bound afterwards are counted from zero on, one for each target that the texts refer
to. -/
theorem optimize_captures (texts : List String) (b : Bindings) (h : b.Proper) :
    List.Forall₂
      (fun before after => List.Forall₂ (Rewritten b (optimize texts b).2)
        (Token.pieces before.toList) (Token.pieces after.toList))
      texts (optimize texts b).1 ∧
    ∀ token, ¬b.Binds token → ((optimize texts b).2.Binds token ↔ token ∈ b.taken texts) := by
  refine ⟨?_, fun token _ => h.binds_canonical_iff texts token⟩
  rw [optimize, List.forall₂_map_right_iff, List.forall₂_same]
  exact fun text member => h.rewritten_canonical member

/-- Of three tokens that are not bound, the one that is spelled like the only token given is
captured. -/
theorem optimize_captures_mixed :
    optimize ["#a = :raw AND #a > #n0", "#n1 < #n0"] ⟨[("#a", "k")], []⟩ =
      (["#n0 = :raw AND #n0 > #n0", "#n1 < #n0"], ⟨[("#n0", "k")], []⟩) ∧
    (Binds ⟨[("#n0", "k")], []⟩ "#n0" ↔ "#n0" ∈ ["#n0"]) ∧
    (Binds ⟨[("#n0", "k")], []⟩ "#n1" ↔ "#n1" ∈ ["#n0"]) ∧
    (Binds ⟨[("#n0", "k")], []⟩ ":raw" ↔ ":raw" ∈ ["#n0"]) := by
  have optimized : optimize ["#a = :raw AND #a > #n0", "#n1 < #n0"] ⟨[("#a", "k")], []⟩ =
      (["#n0 = :raw AND #n0 > #n0", "#n1 < #n0"], ⟨[("#n0", "k")], []⟩) := by
    decide +kernel
  have needed : taken ⟨[("#a", "k")], []⟩ ["#a = :raw AND #a > #n0", "#n1 < #n0"] = ["#n0"] := by
    decide +kernel
  have captures := (optimize_captures ["#a = :raw AND #a > #n0", "#n1 < #n0"] ⟨[("#a", "k")], []⟩
    (by decide)).2
  rw [optimized, needed] at captures
  exact ⟨optimized, captures "#n0" (by decide), captures "#n1" (by decide),
    captures ":raw" (by decide)⟩

/-- Tokens that are not bound do not all stay so: one that is spelled like the first canonical name
comes to stand for the name that another stood for. -/
theorem optimize_captures_first :
    ¬∀ (texts : List String) (b : Bindings), b.Proper →
      List.Forall₂
        (fun before after => List.Forall₂ (Rewritten b (optimize texts b).2)
          (Token.pieces before.toList) (Token.pieces after.toList))
        texts (optimize texts b).1 ∧
      ∀ token ∈ texts.flatMap Token.tokens, ¬b.Binds token → ¬(optimize texts b).2.Binds token := by
  intro kept
  obtain ⟨-, unbound⟩ := kept ["#a = #n0"] ⟨[("#a", "k")], []⟩ (by decide)
  have captured : (optimize ["#a = #n0"] ⟨[("#a", "k")], []⟩).2.Binds "#n0" := by decide +kernel
  exact unbound "#n0" (by decide +kernel) (by decide) captured

end TableClient.Bindings
