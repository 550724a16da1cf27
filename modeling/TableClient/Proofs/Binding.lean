import TableClient.Proofs.Update

/-! What an expression binds.

A rendering that succeeds binds the names and values that it draws tokens for, in the order in
which it draws them (`Emit.Binds`). So a path binds its names, a projection those of its paths
(`Path.compileAll_binds`), and an update also the operands of the actions that it writes, clause
after clause (`UpdateAction.compileAll_binds`).

An empty set is kept out of an update only where it is added or taken out: these actions are left
out, and nothing of them shows. What is assigned, or stepped by, is bound as it is, and an empty
set with it (`compileAll_emptySets`). -/
namespace TableClient

namespace Bindings

/-- The names that are bound, in order. -/
def boundNames (b : Bindings) : List String := b.names.map Prod.snd

/-- The values that are bound, in order. -/
def boundValues (b : Bindings) : List AttributeValue := b.values.map Prod.snd

end Bindings

/-! ### What a rendering binds -/

namespace Emit
variable {α β : Type} {names names' : List String} {values values' : List AttributeValue}

/-- If a rendering succeeds, it has bound these names and values after those bound before. -/
def Binds (m : Emit α) (names : List String) (values : List AttributeValue) : Prop :=
  ∀ e a e', m.run.run e = (.ok a, e') →
    e'.bindings.boundNames = e.bindings.boundNames ++ names ∧
      e'.bindings.boundValues = e.bindings.boundValues ++ values

namespace Binds
variable {m : Emit α} {k : α → Emit β}

theorem pure (a : α) : Binds (Pure.pure a) [] [] := by
  intro e a' e' run
  obtain ⟨rfl, rfl⟩ := run
  exact ⟨(List.append_nil _).symm, (List.append_nil _).symm⟩

theorem throw (fault : ExpressionFault) :
    Binds (MonadExcept.throw fault : Emit α) names values := by
  intro e a e' run
  cases run

theorem bind (hm : Binds m names values) (hk : ∀ a, Binds (k a) names' values') :
    Binds (m >>= k) (names ++ names') (values ++ values') := by
  intro e b e' run
  obtain ⟨a, between, first, later⟩ := ok_of_bind run
  obtain ⟨hnames, hvalues⟩ := hm e a between first
  obtain ⟨hnames', hvalues'⟩ := hk a between b e' later
  rw [hnames', hvalues', hnames, hvalues, List.append_assoc, List.append_assoc]
  exact ⟨rfl, rfl⟩

/-- What comes after a rendering may bind nothing more. -/
theorem andThen (hm : Binds m names values) (hk : ∀ a, Binds (k a) [] []) :
    Binds (m >>= k) names values := by
  have both := hm.bind hk
  rwa [List.append_nil, List.append_nil] at both

/-- Names are bound first, and then values. -/
theorem thenValues (hm : Binds m names []) (hk : ∀ a, Binds (k a) [] values) :
    Binds (m >>= k) names values := by
  have both := hm.bind hk
  rwa [List.append_nil] at both

/-- A check before a rendering. -/
theorem guarded {c : Prop} [Decidable c] {fault : ExpressionFault} {next : PUnit → Emit α}
    (h : Binds (next ⟨⟩) names values) :
    Binds (if c then MonadExcept.throw fault >>= next else next ⟨⟩) names values := by
  split
  · intro e a e' run
    cases run
  · exact h

theorem ite {c : Prop} [Decidable c] {m' : Emit α} (h : c → Binds m names values)
    (h' : ¬c → Binds m' names values) : Binds (if c then m else m') names values := by
  split
  · next holds => exact h holds
  · next fails => exact h' fails

/-- What comes of an expression of its own. -/
theorem fragment {render : Emit String} (h : Binds render names values) {s s' : Scope}
    {f : Fragment} (run : Emit.fragment render s = (.ok f, s')) :
    f.bindings.boundNames = names ∧ f.bindings.boundValues = values := by
  unfold Emit.fragment at run
  rcases rendered : render.run.run ⟨s, {}⟩ with ⟨result, e⟩
  rw [rendered] at run
  cases result with
  | error fault => cases run
  | ok text =>
    obtain rfl := Except.ok.inj (Prod.mk.inj run).1
    exact h _ _ _ rendered

/-- What comes of an expression that may come to nothing. -/
theorem fragment? {render : Emit (Option String)} (h : Binds render names values) {s s' : Scope}
    {f : Fragment} (run : Emit.fragment? render s = (.ok (some f), s')) :
    f.bindings.boundNames = names ∧ f.bindings.boundValues = values := by
  unfold Emit.fragment? at run
  rcases rendered : render.run.run ⟨s, {}⟩ with ⟨result, e⟩
  rw [rendered] at run
  cases result with
  | error fault => cases run
  | ok text =>
    cases text with
    | none => cases run
    | some text =>
      obtain rfl := Option.some.inj (Except.ok.inj (Prod.mk.inj run).1)
      exact h _ _ _ rendered

end Binds

theorem binds_name (text : String) : Binds (name text) [text] [] := by
  intro e a e' run
  obtain ⟨rfl, rfl⟩ := run
  exact ⟨List.map_append, (List.append_nil _).symm⟩

theorem binds_value (v : AttributeValue) : Binds (value v) [] [v] := by
  intro e a e' run
  obtain ⟨rfl, rfl⟩ := run
  exact ⟨(List.append_nil _).symm, List.map_append⟩

end Emit

/-! ### Paths -/

/-- The name that a segment is. -/
def Segment.name? : Segment → Option String
  | .name text => some text
  | .index _ => none

namespace Path

/-- The names on a path, in order. -/
def names (p : Path) : List String := p.segments.filterMap Segment.name?

theorem binds_emitLater (whole : Path) (later : List Segment) :
    Emit.Binds (emitLater whole later) (later.filterMap Segment.name?) [] := by
  induction later with
  | nil => exact .pure ""
  | cons segment rest ih =>
    cases segment with
    | name text =>
      unfold emitLater
      dsimp only
      apply Emit.Binds.guarded
      exact (Emit.binds_name text).bind fun token => ih.andThen fun more => .pure _
    | index n => exact ih.andThen fun more => .pure _

/-- A path binds its names, each as often as it stands in the path. -/
theorem binds_emit (p : Path) : Emit.Binds p.emit p.names [] := by
  obtain ⟨segments⟩ := p
  unfold emit
  match segments with
  | [] => exact .throw _
  | .index _ :: _ => exact .throw _
  | .name first :: later =>
    dsimp only
    apply Emit.Binds.guarded
    exact (Emit.binds_name first).bind fun token =>
      (binds_emitLater _ later).andThen fun more => .pure _

theorem binds_emitAll (ps : List Path) : Emit.Binds (emitAll ps) (ps.flatMap names) [] := by
  induction ps with
  | nil => exact .pure _
  | cons p rest ih => exact p.binds_emit.bind fun text => ih.andThen fun texts => .pure _

/-- A projection binds the names on its paths, and no values. -/
theorem compileAll_binds {ps : List Path} {s s' : Scope} {f : Fragment}
    (h : compileAll ps s = (.ok (some f), s')) :
    f.bindings.boundNames = ps.eraseDups.flatMap names ∧ f.bindings.boundValues = [] := by
  unfold compileAll at h
  split at h
  · cases h
  · exact ((binds_emitAll _).andThen fun texts => .pure _).fragment? h

end Path

/-! ### Updates -/

namespace UpdateAction

/-- The values that an action is written with, in the order in which it draws tokens for them. -/
def operands : UpdateAction → List AttributeValue
  | .set _ v | .setIfMissing _ v | .add _ v | .deleteFrom _ v => [v]
  | .increment _ delta | .decrement _ delta => [.number "0", delta]
  | .append _ items => [.list [], .list items]
  | .prepend _ items => [.list items, .list []]
  | .remove _ => []

theorem binds_emitStep (p : Path) (sign : String) (delta : AttributeValue) :
    Emit.Binds (emitStep p sign delta) p.names [.number "0", delta] := by
  refine p.binds_emit.thenValues fun pt => (Emit.binds_value _).bind fun zero => ?_
  exact (Emit.binds_value delta).andThen fun d => .pure _

/-- An action that changes something binds the names on its path and its operands. -/
theorem binds_emit {a : UpdateAction} (h : a.survives = true) :
    Emit.Binds a.emit a.path.names a.operands := by
  cases a with
  | set p v | setIfMissing p v =>
    exact p.binds_emit.thenValues fun pt => (Emit.binds_value v).andThen fun vt => .pure _
  | increment p delta | decrement p delta =>
    exact (binds_emitStep p _ delta).andThen fun text => .pure _
  | append p items | prepend p items =>
    unfold emit
    dsimp only
    refine .ite (fun empty => ?_) fun some => ?_
    · simp [survives, empty] at h
    · refine p.binds_emit.thenValues fun pt => (Emit.binds_value _).bind fun first => ?_
      exact (Emit.binds_value _).andThen fun second => .pure _
  | add p v | deleteFrom p v =>
    unfold emit
    dsimp only
    refine .ite (fun empty => ?_) fun some => ?_
    · simp [survives, empty] at h
    · exact p.binds_emit.thenValues fun pt => (Emit.binds_value v).andThen fun vt => .pure _
  | remove p => exact p.binds_emit.andThen fun pt => .pure _

/-- Actions bind one after the other, those that change nothing apart. -/
theorem binds_emitAll (actions : List UpdateAction) :
    Emit.Binds (emitAll actions) ((actions.filter survives).flatMap fun a => a.path.names)
      ((actions.filter survives).flatMap operands) := by
  induction actions with
  | nil => exact .pure _
  | cons a rest ih =>
    unfold emitAll
    cases moves : a.survives with
    | false =>
      rw [List.filter_cons_of_neg (Bool.eq_false_iff.1 moves), emit_of_not_survives moves,
        pure_bind]
      exact ih
    | true =>
      rw [List.filter_cons_of_pos moves, List.flatMap_cons, List.flatMap_cons]
      refine (binds_emit moves).bind fun text => ?_
      cases text with
      | none => exact ih
      | some text => exact ih.andThen fun texts => .pure _

theorem binds_emitClauses (actions : List UpdateAction) (cs : List Clause) :
    Emit.Binds (emitClauses actions cs)
      ((cs.flatMap (members actions)).flatMap fun a => a.path.names)
      ((cs.flatMap (members actions)).flatMap operands) := by
  induction cs with
  | nil => exact .pure _
  | cons c rest ih =>
    rw [List.flatMap_cons, List.flatMap_append, List.flatMap_append, ← filter_members]
    refine (binds_emitAll _).bind fun texts => ih.andThen fun later => ?_
    exact .ite (fun _ => .pure _) fun _ => .pure _

/-- A compiled update binds what the actions that it writes name, and what they are written with,
in the order in which it writes them. -/
theorem compileAll_binds {actions : List UpdateAction} {s s' : Scope} {f : Fragment}
    (h : compileAll actions s = (.ok (some f), s')) :
    f.bindings.boundNames = (grouped actions).flatMap (fun a => a.path.names) ∧
      f.bindings.boundValues = (grouped actions).flatMap operands :=
  ((binds_emitClauses actions Clause.all).andThen fun _ => .pure _).fragment? h

/-! ### Empty sets in updates -/

/-- The value that an action is given. -/
def given? : UpdateAction → Option AttributeValue
  | .set _ v | .setIfMissing _ v | .increment _ v | .decrement _ v | .add _ v
  | .deleteFrom _ v => some v
  | .append _ items | .prepend _ items => some (.list items)
  | .remove _ => none

/-- The empty set that an action is given. -/
def emptySet? (a : UpdateAction) : Option AttributeValue :=
  a.given?.filter AttributeValue.isEmptySet

/-- Of what an action is written with, only what it is given can be an empty set. -/
theorem filter_operands (a : UpdateAction) :
    a.operands.filter AttributeValue.isEmptySet = a.emptySet?.toList := by
  rw [emptySet?, Option.toList_filter]
  cases a <;> simp [operands, given?, AttributeValue.isEmptySet]

/-- An action outside the SET clause that is given an empty set changes nothing. -/
theorem not_survives_of_emptySet? {a : UpdateAction} (other : a.clause ≠ .set)
    (empty : a.emptySet?.isSome = true) : a.survives = false := by
  cases a <;> simp_all [clause, emptySet?, given?, survives]

/-- An action of the SET clause that changes nothing is not given an empty set. -/
theorem emptySet?_of_not_survives {a : UpdateAction} (assigns : a.clause = .set)
    (nothing : a.survives = false) : a.emptySet? = none := by
  cases a <;> simp_all [clause, emptySet?, given?, survives, AttributeValue.isEmptySet]

/-- The empty sets that are given to the actions of a clause that change something. -/
theorem filterMap_members (actions : List UpdateAction) (c : Clause) :
    (members actions c).filterMap emptySet? =
      if c = .set then (actions.filter fun a => a.clause = .set).filterMap emptySet? else [] := by
  by_cases assigns : c = .set
  · subst assigns
    rw [if_pos rfl, ← filter_members, List.filterMap_filter]
    refine List.filterMap_congr fun a member => ?_
    have clause : a.clause = .set := by simpa using (List.mem_filter.1 member).2
    split
    · rfl
    · next nothing => exact (emptySet?_of_not_survives clause (by simpa using nothing)).symm
  · rw [if_neg assigns, List.filterMap_eq_nil_iff]
    intro a member
    have moves : a.survives = true := (List.mem_filter.1 (List.mem_filter.1 member).1).2
    rw [← Option.not_isSome_iff_eq_none]
    intro empty
    have other : a.clause ≠ .set := clause_of_mem_members member ▸ assigns
    exact absurd moves (by simp [not_survives_of_emptySet? other empty])

/-- Leaving out actions that change nothing leaves the members of every clause as they are. -/
theorem members_filter {kept : UpdateAction → Bool} {actions : List UpdateAction}
    (h : ∀ a ∈ actions, a.survives = true → kept a = true) (c : Clause) :
    members (actions.filter kept) c = members actions c := by
  have same : (actions.filter kept).filter survives = actions.filter survives := by
    rw [List.filter_filter]
    refine List.filter_congr fun a member => ?_
    cases moves : a.survives with
    | false => rfl
    | true => rw [h a member moves]; rfl
  rw [members, same, members]

/-- **An update binds the empty sets that are assigned in it, and no others.** These are the ones
given to the actions of the SET clause, each bound as it is, in order; so none is bound exactly if
none is given to such an action. An action of another clause that is given one is left out:
without it, the same is compiled. -/
theorem compileAll_emptySets {actions : List UpdateAction} {s s' : Scope} {f : Fragment}
    (h : compileAll actions s = (.ok (some f), s')) :
    f.bindings.boundValues.filter AttributeValue.isEmptySet =
      (actions.filter fun a => a.clause = .set).filterMap emptySet? ∧
    ((∀ v ∈ f.bindings.boundValues, v.isEmptySet = false) ↔
      ∀ a ∈ actions, a.clause = .set → a.emptySet? = none) ∧
    compileAll (actions.filter fun a => a.clause = .set ∨ a.emptySet? = none) s =
      (.ok (some f), s') := by
  have bound : f.bindings.boundValues.filter AttributeValue.isEmptySet =
      (actions.filter fun a => a.clause = .set).filterMap emptySet? := by
    rw [(compileAll_binds h).2, List.filter_flatMap, funext filter_operands,
      ← List.filterMap_eq_flatMap_toList, grouped, List.filterMap_flatMap,
      funext (filterMap_members actions)]
    simp [Clause.all]
  refine ⟨bound, ?_, ?_⟩
  · calc
      (∀ v ∈ f.bindings.boundValues, v.isEmptySet = false)
        ↔ f.bindings.boundValues.filter AttributeValue.isEmptySet = [] := by
          simp [List.filter_eq_nil_iff]
      _ ↔ ∀ a ∈ actions, a.clause = .set → a.emptySet? = none := by
          simp [bound, List.filterMap_eq_nil_iff]
  · have written : ∀ a ∈ actions, a.survives = true →
        decide (a.clause = .set ∨ a.emptySet? = none) = true := by
      intro a _ moves
      rw [decide_eq_true_iff, Classical.or_iff_not_imp_left, ← Option.not_isSome_iff_eq_none]
      intro other empty
      exact absurd moves (by simp [not_survives_of_emptySet? other empty])
    rw [← h, compileAll, compileAll, emitUpdate, emitUpdate,
      emitClauses_congr fun c _ => members_filter written c]

/-- Three of these actions are given an empty set. Two of them assign, or step by, what they are
given, and it is bound; the third one adds it to an attribute and is left out. -/
theorem compileAll_emptySets_mixed :
    ∃ f : Fragment,
      compileAll [.add ⟨[.name "a"]⟩ (.numberSet []), .increment ⟨[.name "b"]⟩ (.binarySet []),
        .set ⟨[.name "c"]⟩ (.textSet []), .remove ⟨[.name "d"]⟩] {} = (.ok (some f), ⟨3, 3⟩) ∧
      f.text = "SET #attr0 = if_not_exists(#attr0, :val0) + :val1, #attr1 = :val2 REMOVE #attr2" ∧
      f.bindings.boundValues.filter AttributeValue.isEmptySet = [.binarySet [], .textSet []] ∧
      compileAll [.increment ⟨[.name "b"]⟩ (.binarySet []), .set ⟨[.name "c"]⟩ (.textSet []),
        .remove ⟨[.name "d"]⟩] {} = (.ok (some f), ⟨3, 3⟩) := by
  have compiled : compileAll [.add ⟨[.name "a"]⟩ (.numberSet []),
      .increment ⟨[.name "b"]⟩ (.binarySet []), .set ⟨[.name "c"]⟩ (.textSet []),
      .remove ⟨[.name "d"]⟩] {} =
      (.ok (some ⟨"SET #attr0 = if_not_exists(#attr0, :val0) + :val1, #attr1 = :val2 " ++
        "REMOVE #attr2", ⟨[("#attr0", "b"), ("#attr1", "c"), ("#attr2", "d")],
          [(":val0", .number "0"), (":val1", .binarySet []), (":val2", .textSet [])]⟩⟩),
        ⟨3, 3⟩) := by
    decide +kernel
  obtain ⟨bound, -, same⟩ := compileAll_emptySets compiled
  exact ⟨_, compiled, rfl, bound, same⟩

/-- An empty set that is assigned is bound, though one that is added to an attribute is not. -/
theorem emptySet_assigned :
    compileAll [.set ⟨[.name "tags"]⟩ (.textSet [])] {} =
        (.ok (some ⟨"SET #attr0 = :val0", ⟨[("#attr0", "tags")], [(":val0", .textSet [])]⟩⟩),
          ⟨1, 1⟩) ∧
      ¬∀ (actions : List UpdateAction) (s s' : Scope) (f : Fragment),
        compileAll actions s = (.ok (some f), s') →
          ∀ v ∈ f.bindings.boundValues, v.isEmptySet = false := by
  have compiled : compileAll [.set ⟨[.name "tags"]⟩ (.textSet [])] {} =
      (.ok (some ⟨"SET #attr0 = :val0", ⟨[("#attr0", "tags")], [(":val0", .textSet [])]⟩⟩),
        ⟨1, 1⟩) := by
    decide +kernel
  refine ⟨compiled, fun kept => ?_⟩
  exact absurd (kept _ _ _ _ compiled (.textSet []) (by simp [Bindings.boundValues])) (by decide)

end UpdateAction

end TableClient
