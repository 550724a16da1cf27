import TableClient.Proofs.Assembly

/-! Tokens are drawn afresh, and a text mentions exactly what was bound for it.

However a rendering ends, the tokens drawn for it are those that it bound, numbered on from those
drawn before. If it succeeds, its text mentions these for the first time in the order in which they
were drawn, and no others; some it mentions again (`Emit.Cites`). So of all that is rendered
against one scope, with failures anywhere between, no token is bound twice, and the maps that the
bindings of all texts become have an entry for each of them (`allocation_fresh`). -/
namespace TableClient

/-! ### Tokens in the order of their first occurrence -/

namespace Token
variable {sigil : Char} {ts us vs : List String} {token : String}

/-- The distinct tokens of a sigil, in the order of their first occurrence. -/
def firstSeen (sigil : Char) (tokens : List String) : List String :=
  (tokens.filter (isToken sigil)).eraseDups

theorem firstSeen_append : firstSeen sigil (ts ++ us) =
    firstSeen sigil ts ++
      ((us.filter (isToken sigil)).removeAll (ts.filter (isToken sigil))).eraseDups := by
  rw [firstSeen, List.filter_append, List.eraseDups_append]
  rfl

theorem firstSeen_fresh (formed : isToken sigil token = true)
    (fresh : token ∉ firstSeen sigil ts) :
    firstSeen sigil (ts ++ [token]) = firstSeen sigil ts ++ [token] := by
  have kept : [token].removeAll (ts.filter (isToken sigil)) = [token] := by
    refine List.filter_eq_self.2 fun t ht => ?_
    obtain rfl := List.mem_singleton.1 ht
    have new : t ∉ ts.filter (isToken sigil) := fun old => fresh (List.mem_eraseDups.2 old)
    rw [List.elem_eq_mem, decide_eq_false new]
    rfl
  rw [firstSeen_append, List.filter_cons_of_pos formed, List.filter_nil, kept]
  simp [List.eraseDups_cons]

theorem firstSeen_other (other : isToken sigil token = false) :
    firstSeen sigil (ts ++ [token]) = firstSeen sigil ts := by
  rw [firstSeen, List.filter_append, List.filter_cons_of_neg (by simp [other])]
  simp [firstSeen]

/-- Tokens that are mentioned again are not new. -/
theorem firstSeen_again (old : us ⊆ ts) :
    firstSeen sigil (ts ++ us ++ vs) = firstSeen sigil (ts ++ vs) := by
  have nothing : (us.filter (isToken sigil)).removeAll (ts.filter (isToken sigil)) = [] := by
    refine List.filter_eq_nil_iff.2 fun t ht => ?_
    obtain ⟨used, formed⟩ := List.mem_filter.1 ht
    simp [old used, formed]
  have same : (vs.filter (isToken sigil)).removeAll ((ts ++ us).filter (isToken sigil)) =
      (vs.filter (isToken sigil)).removeAll (ts.filter (isToken sigil)) := by
    refine List.filter_congr fun t _ => ?_
    have mention : t ∈ ts ++ us ↔ t ∈ ts := by
      rw [List.mem_append]
      exact or_iff_left_of_imp fun again => old again
    simp only [List.elem_eq_mem, List.mem_filter, mention]
  rw [firstSeen_append, firstSeen_append, firstSeen_append, nothing, same, List.eraseDups_nil,
    List.append_nil]

end Token

namespace Bindings

/-- The tokens of a list, in the order of their first occurrence, are the bound ones in the order
in which they were bound. -/
structure CitedBy (b : Bindings) (tokens : List String) : Prop where
  names : Token.firstSeen Token.nameSigil tokens = b.names.map Prod.fst
  values : Token.firstSeen Token.valueSigil tokens = b.values.map Prod.fst

/-- Some of the bindings of distinct tokens, in their order. -/
theorem Proper.of_sublist {a b : Bindings} (h : b.Proper) (names : a.names.Sublist b.names)
    (values : a.values.Sublist b.values) : a.Proper where
  names token member := h.names token ((names.map Prod.fst).subset member)
  values token member := h.values token ((values.map Prod.fst).subset member)
  names_distinct := h.names_distinct.sublist (names.map Prod.fst)
  values_distinct := h.values_distinct.sublist (values.map Prod.fst)

/-- A token that is bound is not bound again later. -/
theorem Proper.apart {a b : Bindings} (h : (a ++ b).Proper) {token : String}
    (first : a.Binds token) : ¬b.Binds token := by
  have names : (a ++ b).names.map Prod.fst = a.names.map Prod.fst ++ b.names.map Prod.fst :=
    List.map_append
  have values : (a ++ b).values.map Prod.fst = a.values.map Prod.fst ++ b.values.map Prod.fst :=
    List.map_append
  rintro (name' | value') <;> rcases first with name | value
  · exact List.disjoint_of_nodup_append (names ▸ h.names_distinct) name name'
  · exact h.disjoint (names ▸ List.mem_append_right _ name')
      (values ▸ List.mem_append_left _ value)
  · exact h.disjoint (names ▸ List.mem_append_left _ name)
      (values ▸ List.mem_append_right _ value')
  · exact List.disjoint_of_nodup_append (values ▸ h.values_distinct) value value'

namespace CitedBy
variable {b : Bindings} {ts us vs : List String} {token : String}

theorem nil : CitedBy {} [] := ⟨rfl, rfl⟩

/-- What is mentioned again changes nothing. -/
theorem again (h : b.CitedBy (ts ++ vs)) (old : us ⊆ ts) : b.CitedBy (ts ++ us ++ vs) :=
  ⟨(Token.firstSeen_again old).trans h.names, (Token.firstSeen_again old).trans h.values⟩

/-- A token that was bound to a name is mentioned. -/
theorem name {text : String} (h : b.CitedBy ts) (proper : (b ++ ⟨[(token, text)], []⟩).Proper) :
    (b ++ ⟨[(token, text)], []⟩).CitedBy (ts ++ Token.tokens token) := by
  have formed := proper.names token (by simp)
  have distinct := proper.names_distinct
  rw [names_append, List.map_append] at distinct
  have fresh : token ∉ b.names.map Prod.fst := fun old =>
    List.disjoint_of_nodup_append distinct old List.mem_cons_self
  have other : Token.isToken Token.valueSigil token = false :=
    Bool.eq_false_iff.2 fun h => absurd (Token.isToken_sigil formed h) (by decide)
  rw [Token.IsWhole.tokens ⟨_, by decide, formed⟩]
  constructor
  · rw [Token.firstSeen_fresh formed (h.names ▸ fresh), h.names, names_append, List.map_append]
    rfl
  · rw [Token.firstSeen_other other, h.values, values_append, List.append_nil]

/-- A token that was bound to a value is mentioned. -/
theorem value {v : AttributeValue} (h : b.CitedBy ts)
    (proper : (b ++ ⟨[], [(token, v)]⟩).Proper) :
    (b ++ ⟨[], [(token, v)]⟩).CitedBy (ts ++ Token.tokens token) := by
  have formed := proper.values token (by simp)
  have distinct := proper.values_distinct
  rw [values_append, List.map_append] at distinct
  have fresh : token ∉ b.values.map Prod.fst := fun old =>
    List.disjoint_of_nodup_append distinct old List.mem_cons_self
  have other : Token.isToken Token.nameSigil token = false :=
    Bool.eq_false_iff.2 fun h => absurd (Token.isToken_sigil formed h) (by decide)
  rw [Token.IsWhole.tokens ⟨_, by decide, formed⟩]
  constructor
  · rw [Token.firstSeen_other other, h.names, names_append, List.append_nil]
  · rw [Token.firstSeen_fresh formed (h.values ▸ fresh), h.values, values_append, List.map_append]
    rfl

end CitedBy

end Bindings

/-! ### The tokens of texts put together -/

namespace IsJoint
variable {lit : String} {ls : List Lexeme} (h : IsJoint lit ls)
include h

theorem tokens_join (a b : String) :
    Token.tokens (a ++ lit ++ b) = Token.tokens a ++ Token.tokens b := by
  rw [String.append_assoc, Token.tokens_append a (h.not_continues_append b), h.tokens_append]

theorem tokens_close (a : String) : Token.tokens (a ++ lit) = Token.tokens a := by
  rw [Token.tokens_append a (by simpa using h.not_continues []), h.tokens, List.append_nil]

theorem tokens_intercalate (texts : List String) :
    Token.tokens (String.intercalate lit texts) = texts.flatMap Token.tokens := by
  induction texts with
  | nil => simp [Token.tokens]
  | cons a rest ih =>
    cases rest with
    | nil => simp
    | cons b rest =>
      rw [String.intercalate_cons_cons, h.tokens_join, ih]
      rfl

end IsJoint

/-! ### What a rendering mentions -/

namespace Emit
variable {α β : Type} {before : List String}

/-- However a rendering ends, the tokens drawn for it are those that it bound. If it succeeds, it
takes tokens that mention what was bound earlier to tokens that also mention what it bound. -/
def Cites (before : List String) (m : Emit α) (after : α → List String) : Prop :=
  ∀ e, ∃ b, e.scope.Draws b (m.run.run e).2.scope ∧
    (m.run.run e).2.bindings = e.bindings ++ b ∧
    ∀ a, (m.run.run e).1 = .ok a → ∀ earlier : Bindings, (earlier ++ b).Proper →
      earlier.CitedBy before → (earlier ++ b).CitedBy (after a)

namespace Cites
variable {m : Emit α} {k : α → Emit β} {mid after : α → List String} {last : β → List String}

theorem pure {a : α} (h : ∀ b : Bindings, b.CitedBy before → b.CitedBy (after a)) :
    Cites before (Pure.pure a) after := by
  intro e
  refine ⟨{}, .refl _, (Bindings.append_empty _).symm, fun a' ha earlier _ cited => ?_⟩
  cases ha
  rw [Bindings.append_empty]
  exact h earlier cited

/-- What is returned mentions what was mentioned before. -/
theorem pure_of_eq {a : α} (h : after a = before) : Cites before (Pure.pure a) after :=
  .pure fun _ cited => by rwa [h]

theorem throw (fault : ExpressionFault) : Cites before (MonadExcept.throw fault) after := by
  intro e
  exact ⟨{}, .refl _, (Bindings.append_empty _).symm, nofun⟩

theorem bind (hm : Cites before m mid) (hk : ∀ a, Cites (mid a) (k a) last) :
    Cites before (m >>= k) last := by
  intro e
  obtain ⟨drawn, draws, bindings, cites⟩ := hm e
  rw [ExceptT.run_bind, StateT.run_bind]
  rcases run : m.run.run e with ⟨result, between⟩
  rw [run] at draws bindings cites
  cases result with
  | error fault => exact ⟨drawn, draws, bindings, nofun⟩
  | ok a =>
    obtain ⟨drawn', draws', bindings', cites'⟩ := hk a between
    refine ⟨drawn ++ drawn', draws.append draws', ?_, fun b hb earlier proper cited => ?_⟩
    · rw [← Bindings.append_assoc, ← bindings]
      exact bindings'
    · rw [← Bindings.append_assoc] at proper ⊢
      have first := proper.of_sublist (List.sublist_append_left ..) (List.sublist_append_left ..)
      exact cites' b hb _ proper (cites a rfl earlier first cited)

/-- A check before a rendering. -/
theorem guarded {c : Prop} [Decidable c] {fault : ExpressionFault} {next : PUnit → Emit α}
    (h : Cites before (next ⟨⟩) after) :
    Cites before (if c then MonadExcept.throw fault >>= next else next ⟨⟩) after := by
  split
  · intro e
    exact ⟨{}, .refl _, (Bindings.append_empty _).symm, nofun⟩
  · exact h

theorem ite {c : Prop} [Decidable c] {m' : Emit α} (h : c → Cites before m after)
    (h' : ¬c → Cites before m' after) : Cites before (if c then m else m') after := by
  split
  · next holds => exact h holds
  · next fails => exact h' fails

end Cites

/-- A name is mentioned by the token drawn for it. -/
theorem cites_name (text : String) (before : List String) :
    Cites before (name text) fun token => before ++ Token.tokens token := by
  intro e
  refine ⟨⟨[(Scope.nameToken e.scope.names, text)], []⟩, ⟨rfl, rfl, rfl, rfl⟩,
    congrArg (Bindings.mk _) (List.append_nil _).symm, fun token drawn earlier proper cited => ?_⟩
  obtain rfl : Scope.nameToken e.scope.names = token := Except.ok.inj drawn
  exact cited.name proper

/-- A value is mentioned by the token drawn for it. -/
theorem cites_value (v : AttributeValue) (before : List String) :
    Cites before (value v) fun token => before ++ Token.tokens token := by
  intro e
  refine ⟨⟨[], [(Scope.valueToken e.scope.values, v)]⟩, ⟨rfl, rfl, rfl, rfl⟩,
    congrArg (Bindings.mk · _) (List.append_nil _).symm, fun token drawn earlier proper cited => ?_⟩
  obtain rfl : Scope.valueToken e.scope.values = token := Except.ok.inj drawn
  exact cited.value proper

theorem cites_values (vs : List AttributeValue) (before : List String) :
    Cites before (values vs) fun tokens => before ++ tokens.flatMap Token.tokens := by
  induction vs generalizing before with
  | nil => exact .pure_of_eq (List.append_nil _)
  | cons v rest ih =>
    exact (cites_value v before).bind fun token => (ih _).bind fun tokens =>
      .pure_of_eq (List.append_assoc ..).symm

end Emit

/-! ### Paths -/

namespace Path

/-- The steps of a path after a text. -/
theorem cites_emitLater (whole : Path) (later : List Segment) (start : String)
    (before : List String) :
    Emit.Cites (before ++ Token.tokens start) (emitLater whole later) fun text =>
      before ++ Token.tokens (start ++ text) := by
  induction later generalizing start with
  | nil => exact .pure_of_eq (by simp)
  | cons segment rest ih =>
    cases segment with
    | name text =>
      unfold emitLater
      dsimp only
      apply Emit.Cites.guarded
      have point : IsJoint "." [.mark '.'] := ⟨⟨rfl, rfl, rfl⟩, rfl⟩
      refine (Emit.cites_name text _).bind fun token => ?_
      rw [List.append_assoc, ← point.tokens_join]
      refine (ih (start ++ "." ++ token)).bind fun more => .pure_of_eq ?_
      simp only [String.append_assoc]
    | index n =>
      have index := (isJoint_index n).tokens_close start
      rw [← index]
      refine (ih (start ++ ("[" ++ toString n ++ "]"))).bind fun more => .pure_of_eq ?_
      simp only [String.append_assoc]

theorem cites_emit (p : Path) (before : List String) :
    Emit.Cites before p.emit fun text => before ++ Token.tokens text := by
  obtain ⟨segments⟩ := p
  unfold emit
  match segments with
  | [] => exact .throw _
  | .index _ :: _ => exact .throw _
  | .name first :: later =>
    dsimp only
    apply Emit.Cites.guarded
    refine (Emit.cites_name first before).bind fun token => ?_
    exact (cites_emitLater _ later token before).bind fun more => .pure_of_eq rfl

theorem cites_emitAll (ps : List Path) (before : List String) :
    Emit.Cites before (emitAll ps) fun texts => before ++ texts.flatMap Token.tokens := by
  induction ps generalizing before with
  | nil => exact .pure_of_eq (List.append_nil _)
  | cons p rest ih =>
    exact (p.cites_emit before).bind fun text => (ih _).bind fun texts =>
      .pure_of_eq (List.append_assoc ..).symm

end Path

/-! ### Conditions -/

namespace Condition

theorem tokens_operand (c : Condition) (text : String) :
    Token.tokens (c.operand text) = Token.tokens text := by
  unfold operand
  split
  · have opens : IsLiteral "(" [.mark '('] := ⟨rfl, rfl, rfl⟩
    rw [isJoint_close.tokens_close, opens.tokens_append]
  · rfl

mutual
/-- A condition mentions the tokens drawn for it once each. -/
theorem cites_emit (c : Condition) (before : List String) :
    Emit.Cites before c.emit fun text => before ++ Token.tokens text := by
  cases c with
  | compare op p v =>
    refine (p.cites_emit before).bind fun pt => (Emit.cites_value v _).bind fun vt => ?_
    refine .pure_of_eq ?_
    rw [List.append_assoc, ← (isJoint_symbol op).tokens_join]
    simp only [String.append_assoc]
  | between p low high =>
    refine (p.cites_emit before).bind fun pt => (Emit.cites_value low _).bind fun lt => ?_
    refine (Emit.cites_value high _).bind fun ht => .pure_of_eq ?_
    have between : IsJoint " BETWEEN " [.keyword "BETWEEN"] := ⟨⟨rfl, rfl, rfl⟩, rfl⟩
    rw [isJoint_and.tokens_join, between.tokens_join]
    simp only [List.append_assoc]
  | isIn p candidates =>
    unfold emit
    dsimp only
    apply Emit.Cites.guarded
    refine (p.cites_emit before).bind fun pt => (Emit.cites_values candidates _).bind fun vts => ?_
    refine .pure_of_eq ?_
    have among : IsJoint " IN (" [.keyword "IN", .mark '('] := ⟨⟨rfl, rfl, rfl⟩, rfl⟩
    rw [isJoint_close.tokens_close, among.tokens_join, isJoint_comma.tokens_intercalate,
      List.append_assoc]
  | test function p arguments =>
    refine (p.cites_emit before).bind fun pt => (Emit.cites_values arguments _).bind fun vts => ?_
    refine .pure_of_eq ?_
    have opens : IsLiteral (function.name ++ "(") [.keyword function.name, .mark '('] := by
      cases function <;> exact ⟨rfl, rfl, rfl⟩
    rw [isJoint_close.tokens_close, opens.tokens_append, isJoint_comma.tokens_intercalate,
      List.append_assoc]
    rfl
  | size op p v =>
    refine (p.cites_emit before).bind fun pt => (Emit.cites_value v _).bind fun vt => ?_
    refine .pure_of_eq ?_
    have opens : IsLiteral "size(" [.keyword "size", .mark '('] := ⟨rfl, rfl, rfl⟩
    have closes : IsJoint (") " ++ op.symbol ++ " ") [.mark ')', .sign op.symbol.toList] := by
      cases op <;> exact ⟨⟨rfl, rfl, rfl⟩, rfl⟩
    rw [List.append_assoc, ← opens.tokens_append pt, ← closes.tokens_join]
    simp only [String.append_assoc]
  | all conditions =>
    refine (cites_emitOperands conditions before).bind fun texts => .pure_of_eq ?_
    rw [isJoint_and.tokens_intercalate]
  | any conditions =>
    refine (cites_emitOperands conditions before).bind fun texts => .pure_of_eq ?_
    rw [isJoint_or.tokens_intercalate]
  | not c =>
    refine (cites_emit c before).bind fun text => .pure_of_eq ?_
    have negates : IsLiteral "NOT " [.keyword "NOT"] := ⟨rfl, rfl, rfl⟩
    rw [negates.tokens_append, tokens_operand]

theorem cites_emitOperands (cs : List Condition) (before : List String) :
    Emit.Cites before (emitOperands cs) fun texts => before ++ texts.flatMap Token.tokens := by
  cases cs with
  | nil => exact .pure_of_eq (List.append_nil _)
  | cons c rest =>
    refine (cites_emit c before).bind fun text => (cites_emitOperands rest _).bind fun texts => ?_
    refine .pure_of_eq ?_
    rw [List.flatMap_cons, tokens_operand, List.append_assoc]
end

end Condition

/-! ### Updates -/

namespace UpdateAction

/-- The tokens of what may have come to nothing. -/
def tokens? (text : Option String) : List String := text.elim [] Token.tokens

theorem tokens_present (pt vt : String) :
    Token.tokens ("if_not_exists(" ++ pt ++ ", " ++ vt ++ ")") =
      Token.tokens pt ++ Token.tokens vt := by
  have opens : IsLiteral "if_not_exists(" [.keyword "if_not_exists", .mark '('] := ⟨rfl, rfl, rfl⟩
  rw [isJoint_close.tokens_close, isJoint_comma.tokens_join, opens.tokens_append]

theorem tokens_concat (pt first second : String) :
    Token.tokens (pt ++ " = list_append(" ++ first ++ ", " ++ second ++ ")") =
      Token.tokens pt ++ Token.tokens first ++ Token.tokens second := by
  have assign : IsJoint " = list_append(" [.sign ['='], .keyword "list_append", .mark '('] :=
    ⟨⟨rfl, rfl, rfl⟩, rfl⟩
  rw [isJoint_close.tokens_close, isJoint_comma.tokens_join, assign.tokens_join]

theorem cites_emitStep (p : Path) {sign : String} {step : Lexeme}
    (joint : IsJoint (") " ++ sign ++ " ") [.mark ')', step]) (delta : AttributeValue)
    (before : List String) :
    Emit.Cites before (emitStep p sign delta) fun text => before ++ Token.tokens text := by
  refine (p.cites_emit before).bind fun pt => (Emit.cites_value _ _).bind fun zt => ?_
  refine (Emit.cites_value delta _).bind fun dt => .pure fun b cited => ?_
  have tokens : Token.tokens (pt ++ " = if_not_exists(" ++ pt ++ ", " ++ zt ++
      (") " ++ sign ++ " ") ++ dt) = Token.tokens pt ++ Token.tokens pt ++ Token.tokens zt ++
        Token.tokens dt := by
    rw [joint.tokens_join, isJoint_comma.tokens_join, isJoint_assign_present.tokens_join]
  have again : Token.tokens pt ⊆ before ++ Token.tokens pt := List.subset_append_right ..
  rw [List.append_assoc] at cited
  have cited := cited.again again
  simp only [String.append_assoc, List.append_assoc] at tokens cited ⊢
  rwa [tokens]

/-- An action mentions the tokens drawn for it; those of its path it may mention twice. -/
theorem cites_emit (a : UpdateAction) (before : List String) :
    Emit.Cites before a.emit fun text => before ++ tokens? text := by
  have again (pt : String) : Token.tokens pt ⊆ before ++ Token.tokens pt :=
    List.subset_append_right ..
  cases a with
  | set p v =>
    refine (p.cites_emit before).bind fun pt => (Emit.cites_value v _).bind fun vt => ?_
    refine .pure_of_eq ?_
    show before ++ Token.tokens (pt ++ " = " ++ vt) = _
    rw [isJoint_assign.tokens_join, List.append_assoc]
  | setIfMissing p v =>
    refine (p.cites_emit before).bind fun pt => (Emit.cites_value v _).bind fun vt => ?_
    refine .pure fun b cited => ?_
    show b.CitedBy (before ++ Token.tokens (pt ++ " = if_not_exists(" ++ pt ++ ", " ++ vt ++ ")"))
    rw [isJoint_close.tokens_close, isJoint_comma.tokens_join, isJoint_assign_present.tokens_join]
    simpa only [List.append_assoc] using cited.again (again pt)
  | increment p delta =>
    have plus : IsJoint (") " ++ "+" ++ " ") [.mark ')', .mark '+'] := ⟨⟨rfl, rfl, rfl⟩, rfl⟩
    exact (cites_emitStep p plus delta before).bind fun text => .pure_of_eq rfl
  | decrement p delta =>
    have minus : IsJoint (") " ++ "-" ++ " ") [.mark ')', .mark '-'] := ⟨⟨rfl, rfl, rfl⟩, rfl⟩
    exact (cites_emitStep p minus delta before).bind fun text => .pure_of_eq rfl
  | append p items =>
    unfold emit
    dsimp only
    refine .ite (fun _ => .pure_of_eq (List.append_nil _)) fun _ => ?_
    refine (p.cites_emit before).bind fun pt => (Emit.cites_value _ _).bind fun st => ?_
    refine (Emit.cites_value _ _).bind fun it => .pure fun b cited => ?_
    show b.CitedBy (before ++ Token.tokens _)
    rw [tokens_concat, tokens_present]
    rw [List.append_assoc _ (Token.tokens st)] at cited
    simpa only [List.append_assoc] using cited.again (again pt)
  | prepend p items =>
    unfold emit
    dsimp only
    refine .ite (fun _ => .pure_of_eq (List.append_nil _)) fun _ => ?_
    refine (p.cites_emit before).bind fun pt => (Emit.cites_value _ _).bind fun it => ?_
    refine (Emit.cites_value _ _).bind fun st => .pure fun b cited => ?_
    show b.CitedBy (before ++ Token.tokens _)
    rw [tokens_concat, tokens_present]
    have later : Token.tokens pt ⊆ before ++ Token.tokens pt ++ Token.tokens it :=
      fun token used => List.mem_append_left _ (again pt used)
    simpa only [List.append_assoc] using cited.again later
  | add p v | deleteFrom p v =>
    unfold emit
    dsimp only
    refine .ite (fun _ => .pure_of_eq (List.append_nil _)) fun _ => ?_
    refine (p.cites_emit before).bind fun pt => (Emit.cites_value v _).bind fun vt => ?_
    refine .pure_of_eq ?_
    have blank : IsJoint " " [] := ⟨⟨rfl, rfl, rfl⟩, rfl⟩
    show before ++ Token.tokens (pt ++ " " ++ vt) = _
    rw [blank.tokens_join, List.append_assoc]
  | remove p => exact (p.cites_emit before).bind fun pt => .pure_of_eq rfl

/-- Actions that are rendered in order. -/
theorem cites_emitAll (actions : List UpdateAction) (before : List String) :
    Emit.Cites before (emitAll actions) fun texts => before ++ texts.flatMap Token.tokens := by
  induction actions generalizing before with
  | nil => exact .pure_of_eq (List.append_nil _)
  | cons a rest ih =>
    refine (a.cites_emit before).bind fun text => ?_
    cases text with
    | none =>
      rw [tokens?, Option.elim_none, List.append_nil]
      exact ih before
    | some text => exact (ih _).bind fun texts => .pure_of_eq (List.append_assoc ..).symm

theorem cites_emitClauses (actions : List UpdateAction) (cs : List Clause)
    (before : List String) :
    Emit.Cites before (emitClauses actions cs) fun texts =>
      before ++ texts.flatMap Token.tokens := by
  induction cs generalizing before with
  | nil => exact .pure_of_eq (List.append_nil _)
  | cons c rest ih =>
    refine (cites_emitAll _ before).bind fun texts => (ih _).bind fun later => ?_
    refine .ite (fun empty => .pure_of_eq ?_) fun _ => .pure_of_eq ?_
    · rw [List.isEmpty_iff.1 empty, List.flatMap_nil, List.append_nil]
    · have opens : IsLiteral (c.keyword ++ " ") [.keyword c.keyword] := by
        cases c <;> exact ⟨rfl, rfl, rfl⟩
      rw [List.flatMap_cons, opens.tokens_append, isJoint_comma.tokens_intercalate,
        List.append_assoc]

/-- An update mentions the tokens drawn for it, clause after clause. -/
theorem cites_emitUpdate (actions : List UpdateAction) (before : List String) :
    Emit.Cites before (emitUpdate actions) fun text => before ++ tokens? text := by
  refine (cites_emitClauses actions Clause.all before).bind fun texts => .pure_of_eq ?_
  cases texts with
  | nil => rfl
  | cons text rest =>
    have blank : IsJoint " " [] := ⟨⟨rfl, rfl, rfl⟩, rfl⟩
    exact congrArg (before ++ ·) (blank.tokens_intercalate (text :: rest))

end UpdateAction

/-! ### Expressions of their own -/

/-- However the compilation of an expression ends, the tokens drawn for it are those that it bound,
and a fragment that it returns has these bindings and mentions their tokens. -/
def Allocates (compile : Scope → Except ExpressionFault (Option Fragment) × Scope) : Prop :=
  ∀ s, ∃ b, s.Draws b (compile s).2 ∧
    ∀ f, (compile s).1 = .ok (some f) → f.bindings = b ∧ b.CitedBy (Token.tokens f.text)

namespace Allocates

theorem nothing : Allocates fun s => (.ok none, s) := fun s => ⟨{}, .refl s, nofun⟩

theorem fragment? {render : Emit (Option String)}
    (h : Emit.Cites [] render UpdateAction.tokens?) : Allocates (Emit.fragment? render) := by
  intro s
  obtain ⟨b, draws, bindings, cites⟩ := h ⟨s, {}⟩
  refine ⟨b, draws, fun f returned => ?_⟩
  unfold Emit.fragment? at returned
  rcases run : render.run.run ⟨s, {}⟩ with ⟨result, e⟩
  rw [run] at draws bindings cites returned
  cases result with
  | error fault => cases returned
  | ok text =>
    cases text with
    | none => cases returned
    | some text =>
      obtain rfl := Option.some.inj (Except.ok.inj returned)
      exact ⟨bindings, cites (some text) rfl {} draws.proper .nil⟩

theorem fragment {render : Emit String} (h : Emit.Cites [] render Token.tokens) :
    Allocates fun s => ((Emit.fragment render s).1.map some, (Emit.fragment render s).2) := by
  have same : (fun s => ((Emit.fragment render s).1.map some, (Emit.fragment render s).2)) =
      Emit.fragment? (do return some (← render)) := by
    funext s
    unfold Emit.fragment Emit.fragment?
    rw [ExceptT.run_bind, StateT.run_bind]
    rcases render.run.run ⟨s, {}⟩ with ⟨result, e⟩
    cases result <;> rfl
  rw [same]
  exact .fragment? (h.bind fun text => .pure_of_eq rfl)

end Allocates

/-- The compilation of one expression. -/
inductive Compilation where
  | path (path : Path)
  | projection (paths : List Path)
  | condition (condition : Condition)
  | conjunction (conditions : List Condition)
  | update (actions : List UpdateAction)

namespace Compilation

/-- Compiles an expression against a scope. -/
def run : Compilation → Scope → Except ExpressionFault (Option Fragment) × Scope
  | .path p, s => ((p.compile s).1.map some, (p.compile s).2)
  | .projection ps, s => Path.compileAll ps s
  | .condition c, s => c.compile s
  | .conjunction cs, s => Condition.compileAll cs s
  | .update actions, s => UpdateAction.compileAll actions s

/-- Compiles expressions one after the other against a scope, whether or not those before
failed. -/
def runAll : List Compilation → Scope → List (Except ExpressionFault (Option Fragment)) × Scope
  | [], s => ([], s)
  | c :: rest, s =>
    let (result, s) := c.run s
    let (results, s) := runAll rest s
    (result :: results, s)

/-- The fragments that compilations returned. -/
def returned (results : List (Except ExpressionFault (Option Fragment))) : List Fragment :=
  results.filterMap fun result => result.toOption.join

theorem allocates_condition (c : Condition) : Allocates c.compile := by
  intro s
  unfold Condition.compile
  cases c.prune with
  | none => exact Allocates.nothing s
  | some kept => exact Allocates.fragment (kept.cites_emit []) s

theorem allocates_projection (ps : List Path) : Allocates (Path.compileAll ps) := by
  unfold Path.compileAll
  split
  · exact .nothing
  · refine .fragment? ((Path.cites_emitAll _ []).bind fun texts => .pure_of_eq ?_)
    exact isJoint_comma.tokens_intercalate texts

/-- Whatever is compiled, failed or not, has drawn the tokens that it bound. -/
theorem allocates_run (c : Compilation) : Allocates c.run := by
  cases c with
  | path p => exact .fragment (p.cites_emit [])
  | projection ps => exact allocates_projection ps
  | condition c => exact allocates_condition c
  | conjunction cs => exact allocates_condition (.all cs)
  | update actions => exact .fragment? (UpdateAction.cites_emitUpdate actions [])

end Compilation

/-! ### Many expressions against one scope -/

namespace Fragment
variable {fs : List Fragment}

theorem names_merged (fs : List Fragment) :
    (merged fs).names = fs.flatMap fun f => f.bindings.names := by
  induction fs with
  | nil => rfl
  | cons f rest ih => rw [merged_cons, Bindings.names_append, ih, List.flatMap_cons]

theorem values_merged (fs : List Fragment) :
    (merged fs).values = fs.flatMap fun f => f.bindings.values := by
  induction fs with
  | nil => rfl
  | cons f rest ih => rw [merged_cons, Bindings.values_append, ih, List.flatMap_cons]

theorem binds_merged {f : Fragment} (member : f ∈ fs) {token : String}
    (h : f.bindings.Binds token) : (merged fs).Binds token := by
  refine h.imp (fun name => ?_) fun value => ?_
  · obtain ⟨entry, bound, rfl⟩ := List.mem_map.1 name
    rw [names_merged]
    exact List.mem_map_of_mem (List.mem_flatMap.2 ⟨f, member, bound⟩)
  · obtain ⟨entry, bound, rfl⟩ := List.mem_map.1 value
    rw [values_merged]
    exact List.mem_map_of_mem (List.mem_flatMap.2 ⟨f, member, bound⟩)

/-- If the bindings of several fragments together bind each token once, no two of the fragments
bind the same. -/
theorem pairwise_apart (h : (merged fs).Proper) :
    fs.Pairwise fun f g => ∀ token, f.bindings.Binds token → ¬g.bindings.Binds token := by
  induction fs with
  | nil => exact .nil
  | cons f rest ih =>
    rw [merged_cons] at h
    refine .cons (fun g member token first later => ?_) (ih ?_)
    · exact h.apart first (binds_merged member later)
    · exact h.of_sublist (List.sublist_append_right ..) (List.sublist_append_right ..)

end Fragment

namespace Compilation

/-- However many expressions are compiled, and whichever of them fail, the tokens drawn for them
are numbered on, and the fragments that are returned have bound some of them, each its own. -/
theorem runAll_draws (cs : List Compilation) (s : Scope) :
    ∃ b, s.Draws b (runAll cs s).2 ∧
      (Fragment.merged (returned (runAll cs s).1)).names.Sublist b.names ∧
      (Fragment.merged (returned (runAll cs s).1)).values.Sublist b.values ∧
      ∀ f ∈ returned (runAll cs s).1,
        (∃ start stop, Scope.Draws start f.bindings stop) ∧
        f.bindings.CitedBy (Token.tokens f.text) := by
  induction cs generalizing s with
  | nil => exact ⟨{}, .refl s, .slnil, .slnil, nofun⟩
  | cons c rest ih =>
    obtain ⟨b, draws, made⟩ := c.allocates_run s
    obtain ⟨b', draws', names, values, cited⟩ := ih (c.run s).2
    refine ⟨b ++ b', draws.append draws', ?_⟩
    rw [runAll]
    dsimp only
    -- only a compilation that succeeds with a fragment adds to those returned
    rcases result : (c.run s).1 with fault | fragment
    · exact ⟨names.trans (List.sublist_append_right ..),
        values.trans (List.sublist_append_right ..), cited⟩
    · cases fragment with
      | none =>
        exact ⟨names.trans (List.sublist_append_right ..),
          values.trans (List.sublist_append_right ..), cited⟩
      | some f =>
        obtain ⟨rfl, own⟩ := made f result
        have returns : returned (.ok (some f) :: (runAll rest (c.run s).2).1) =
          f :: returned (runAll rest (c.run s).2).1 := rfl
        rw [returns, Fragment.merged_cons]
        exact ⟨names.append_left _, values.append_left _,
          List.forall_mem_cons.2 ⟨⟨⟨s, _, draws⟩, own⟩, cited⟩⟩

/-- **Tokens are drawn afresh, and a text mentions exactly those bound for it.** Whatever
expressions are compiled against one scope, and whichever of them fail, no two fragments that are
returned bind the same token. The tokens of each are numbered on in the order in which they were
bound, and that is the order in which its text first mentions them; it mentions no others. So the
maps that all their bindings become have an entry for each binding. -/
theorem allocation_fresh (cs : List Compilation) (s : Scope) :
    let fragments := returned (runAll cs s).1
    let wire := Fragment.merged fragments
    (fragments.Pairwise fun f g => ∀ token, f.bindings.Binds token → ¬g.bindings.Binds token) ∧
    (∀ f ∈ fragments, f.bindings.Proper ∧ (∃ start stop, Scope.Draws start f.bindings stop) ∧
      f.bindings.CitedBy (Token.tokens f.text)) ∧
    wire.nameMap.toList.Perm (fragments.flatMap fun f => f.bindings.names) ∧
    wire.valueMap.toList.Perm (fragments.flatMap fun f => f.bindings.values) ∧
    wire.nameMap.size = (fragments.flatMap fun f => f.bindings.names).length ∧
    wire.valueMap.size = (fragments.flatMap fun f => f.bindings.values).length := by
  intro fragments wire
  obtain ⟨b, draws, names, values, cited⟩ := runAll_draws cs s
  have proper : wire.Proper := draws.proper.of_sublist names values
  have nameMap : wire.nameMap.toList.Perm wire.names :=
    KeyMap.toList_ofList_perm proper.names_distinct
  have valueMap : wire.valueMap.toList.Perm wire.values :=
    KeyMap.toList_ofList_perm proper.values_distinct
  refine ⟨Fragment.pairwise_apart proper, fun f member => ?_, ?_, ?_, ?_, ?_⟩
  · obtain ⟨⟨start, stop, own⟩, mentions⟩ := cited f member
    exact ⟨own.proper, ⟨start, stop, own⟩, mentions⟩
  · rwa [← Fragment.names_merged]
  · rwa [← Fragment.values_merged]
  · rw [KeyMap.size_eq, nameMap.length_eq, Fragment.names_merged]
  · rw [KeyMap.size_eq, valueMap.length_eq, Fragment.values_merged]

/-- A path fails after it has drawn a token. The update drawn next mentions its path twice. -/
theorem allocation_fresh_interleaved :
    let cs : List Compilation :=
      [.path ⟨[.name "a", .name ""]⟩, .update [.increment ⟨[.name "n"]⟩ (.number "2")],
        .path ⟨[.name "n"]⟩]
    let count : Fragment := ⟨"SET #attr1 = if_not_exists(#attr1, :val0) + :val1",
      ⟨[("#attr1", "n")], [(":val0", .number "0"), (":val1", .number "2")]⟩⟩
    let place : Fragment := ⟨"#attr2", ⟨[("#attr2", "n")], []⟩⟩
    runAll cs {} =
        ([.error (.invalidPath ⟨[.name "a", .name ""]⟩ .emptyName), .ok (some count),
          .ok (some place)], ⟨3, 2⟩) ∧
      count.bindings.CitedBy (Token.tokens count.text) ∧
      (∀ token, count.bindings.Binds token → ¬place.bindings.Binds token) ∧
      (Fragment.merged [count, place]).nameMap.size = 2 := by
  intro cs count place
  have run : runAll cs {} =
      ([.error (.invalidPath ⟨[.name "a", .name ""]⟩ .emptyName), .ok (some count),
        .ok (some place)], ⟨3, 2⟩) := by
    decide +kernel
  obtain ⟨apart, own, -, -, names, -⟩ := allocation_fresh cs {}
  rw [run] at apart own names
  have fragments : returned [.error (.invalidPath ⟨[.name "a", .name ""]⟩ .emptyName),
      .ok (some count), .ok (some place)] = [count, place] := rfl
  rw [fragments] at apart own names
  exact ⟨run, (own count List.mem_cons_self).2.2, (List.pairwise_pair.1 apart), names⟩

end Compilation

end TableClient
