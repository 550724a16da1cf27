import TableClient.Proofs.Closed

/-! Expressions put over others.

Assembly sets the fields that a set of expressions has something to say in, and leaves the others.
A field that is left keeps its text, but the bindings of the set are put over those at hand, under
numbered tokens. So a text is read as before exactly if none of its tokens is bound to something
else now (`Overlays.reads`), and a caller who numbers tokens the same way may find the field that
was left say something else (`assemble_overlays_rebound`). -/
namespace TableClient

/-- Two senses read a text alike if its tokens stand for the same in both. -/
theorem Sense.read_eq_iff {σ τ : Sense} {text : String} :
    σ.read text.toList = τ.read text.toList ↔
      ∀ token ∈ Token.tokens text, σ.target token = τ.target token := by
  rw [read, read, List.map_inj_left]
  constructor
  · intro h token used
    obtain ⟨piece, occurs, hpiece⟩ := List.mem_filterMap.1 used
    cases piece with
    | plain c => cases hpiece
    | token chars =>
      obtain rfl := Option.some.inj hpiece
      exact h _ occurs
  · intro h piece occurs
    cases piece with
    | plain c => rfl
    | token chars => exact h _ (List.mem_filterMap.2 ⟨_, occurs, rfl⟩)

namespace Bindings
variable {b : Bindings}

/-- The bindings of a canonical form bind each of their tokens once. -/
theorem Proper.canonical (h : b.Proper) (texts : List String) :
    (canonical texts b).bindings.Proper where
  names token member := by
    rw [h.map_fst_names] at member
    obtain ⟨n, -, rfl⟩ := List.mem_map.1 member
    exact isToken_nameToken n
  values token member := by
    rw [h.map_fst_values] at member
    obtain ⟨n, -, rfl⟩ := List.mem_map.1 member
    exact isToken_valueToken n
  names_distinct := by
    rw [h.map_fst_names]
    exact List.nodup_range.map nameToken_injective
  values_distinct := by
    rw [h.map_fst_values]
    exact List.nodup_range.map valueToken_injective

end Bindings

/-- The texts of rendered expressions use bound tokens only. -/
theorem ExpressionSet.Renders.binds_of_mem {e : ExpressionSet} {r : Expressions (Option Fragment)}
    (h : e.Renders r) {f : Fragment} (member : some f ∈ r.toList) {token : String}
    (used : token ∈ Token.tokens (r.form.substitute f.text)) : r.form.bindings.Binds token := by
  refine (h.proper.mem_tokens_canonical h.binds token).1 (List.mem_flatMap.2 ⟨_, ?_, used⟩)
  exact List.mem_map_of_mem (List.mem_map_of_mem (List.mem_filterMap.2 ⟨_, member, rfl⟩))

namespace Parameters

/-- Bindings put over those of parameters count more. -/
theorem target_of_insertAll {p q : Parameters} {b : Bindings} (proper : b.Proper)
    (names : q.names = p.names.insertAll b.names) (values : q.values = p.values.insertAll b.values)
    (token : String) : q.sense.target token =
      if b.Binds token then b.sense.target token else p.sense.target token := by
  have hname : q.sense.name token = (b.nameMap.get? token).or (p.names.get? token) := by
    rw [sense, names]
    exact KeyMap.get?_insertAll ..
  have hvalue : q.sense.value token = (b.valueMap.get? token).or (p.values.get? token) := by
    rw [sense, values]
    exact KeyMap.get?_insertAll ..
  by_cases bound : b.Binds token
  · rw [if_pos bound]
    rcases bound with name | value
    · obtain ⟨⟨token, text⟩, member, rfl⟩ := List.mem_map.1 name
      rw [proper.target_name member]
      refine Sense.target_of_name (proper.names _ name) ?_
      rw [hname, show b.nameMap.get? token = some text from
        KeyMap.get?_ofList_of_mem proper.names_distinct member, Option.some_or]
    · obtain ⟨⟨token, v⟩, member, rfl⟩ := List.mem_map.1 value
      rw [proper.target_value member]
      refine Sense.target_of_value (proper.values _ value) ?_
      rw [hvalue, show b.valueMap.get? token = some v from
        KeyMap.get?_ofList_of_mem proper.values_distinct member, Option.some_or]
  · rw [if_neg bound]
    have unnamed : b.nameMap.get? token = none :=
      KeyMap.get?_ofList_eq_none fun member => bound (.inl member)
    have unvalued : b.valueMap.get? token = none :=
      KeyMap.get?_ofList_eq_none fun member => bound (.inr member)
    rw [unnamed, Option.none_or] at hname
    rw [unvalued, Option.none_or] at hvalue
    rw [Sense.target, Sense.target, hname, hvalue]
    rfl

/-- A field that is to say something says it, and any other is as it was. -/
inductive Amends {α : Type} (read : String → Option α) (same : α → α → Prop)
    (preset : Option String) : Option String → Option α → Prop where
  | left : Amends read same preset preset none
  | set {text : String} {said a : α} (h : read text = some said) (agrees : same said a) :
    Amends read same preset (some text) (some a)

/-- Parameters `q` come of `p` by putting a set of expressions with the bindings `b` over those that
`p` has. -/
structure Overlays (p : Parameters) (e : ExpressionSet) (b : Bindings) (q : Parameters) :
    Prop where
  projection : Amends q.sense.projection? Eq p.projection q.projection (Path.meaning e.projection)
  keyCondition : Amends q.sense.condition? Condition.SameAs p.keyCondition q.keyCondition
    (Condition.all e.keyConditions).prune
  condition : Amends q.sense.condition? Condition.SameAs p.condition q.condition
    (Condition.all e.conditions).prune
  filter : Amends q.sense.condition? Condition.SameAs p.filter q.filter
    (Condition.all e.filters).prune
  update : Amends q.sense.update? (List.Forall₂ UpdateAction.SameAs) p.update q.update
    (UpdateAction.meaning e.updates)
  /-- The tokens that are bound are numbered from zero on. -/
  name_tokens : b.names.map Prod.fst = (List.range b.names.length).map Bindings.nameToken
  value_tokens : b.values.map Prod.fst = (List.range b.values.length).map Bindings.valueToken
  names : q.names = p.names.insertAll b.names
  values : q.values = p.values.insertAll b.values
  /-- A text is read as before if none of its tokens is bound to something else now, and only
  then. -/
  reads : ∀ text : String, q.sense.read text.toList = p.sense.read text.toList ↔
    ∀ token ∈ Token.tokens text, b.Binds token → b.sense.target token = p.sense.target token

/-- A field that a rendered expression is put into says what the expression says. -/
theorem Overlaid.amends {p q : Parameters} {e : ExpressionSet}
    {r : Expressions (Option Fragment)} (overlaid : p.Overlaid r q) (rendered : e.Renders r)
    {α : Type} {reader : Grammar.Reader α} {g : α → α}
    (follows : reader.Follows AttributeValue.normalized g reader) {same : α → α → Prop}
    (agrees : ∀ said a, g said = g a → same said a) {fragment : Option Fragment}
    (member : fragment ∈ r.toList) {meaning : Option α}
    (rel : Option.Rel (fun f said => f.Tells reader said) fragment meaning)
    {preset field : Option String}
    (h : field = (fragment.map fun f => r.form.substitute f.text).or preset) :
    Amends (fun text => reader.whole (q.sense.lexemes text.toList)) same preset field meaning := by
  have carried := carries_canonical rendered follows agrees member rel
  cases rel with
  | none =>
    obtain rfl : field = preset := h
    exact .left
  | @some f a tells =>
    obtain rfl : field = some (r.form.substitute f.text) := h
    cases carried with
    | some said =>
      obtain ⟨said, read, agrees⟩ := said
      refine .set ?_ agrees
      have alike : q.sense.read (r.form.substitute f.text).toList =
          r.form.bindings.sense.read (r.form.substitute f.text).toList := by
        refine Sense.read_eq_iff.2 fun token used => ?_
        rw [target_of_insertAll (rendered.proper.canonical _) overlaid.names overlaid.values]
        exact if_pos (rendered.binds_of_mem member used)
      rw [Sense.lexemes, alike]
      exact read

theorem map_eq_of_map_range {α : Type} {l : List α} {f : α → String} {g : Nat → String} {n : Nat}
    (h : l.map f = (List.range n).map g) : l.map f = (List.range l.length).map g := by
  have hlength : l.length = n := by simpa using congrArg List.length h
  rwa [hlength]

/-- **Expressions put over others.** A set of expressions that compiles can be assembled in any
parameters. Each field that it has something to say in says that; the others are as they were, and
the bindings of the set, whose tokens are numbered, are put over those at hand. So a text is read
as before exactly if no token in it is one of theirs that stood for something else. -/
theorem assemble_overlays {e : ExpressionSet} {r : Expressions (Option Fragment)}
    (h : e.compile = .ok r) (p : Parameters) :
    ∃ q, p.assemble e = .ok q ∧ ∃ b, p.Overlays e b q := by
  obtain ⟨q, hq⟩ : ∃ q, p.assemble e = .ok q := by
    unfold assemble
    rw [h]
    exact ⟨_, rfl⟩
  obtain ⟨r', compiled, overlaid⟩ := overlaid_of_assemble hq
  obtain rfl := Except.ok.inj (h.symm.trans compiled)
  have rendered := ExpressionSet.renders_of_compile h
  have proper : r.form.bindings.Proper := rendered.proper.canonical _
  refine ⟨q, hq, r.form.bindings, ?_⟩
  constructor
  · exact overlaid.amends rendered (Grammar.follows_projection _) (fun _ _ equal => equal)
      (by simp [Expressions.toList]) rendered.projection overlaid.projection
  · exact overlaid.amends rendered (Grammar.follows_condition _) (fun _ _ equal => equal)
      (by simp [Expressions.toList]) rendered.keyCondition overlaid.keyCondition
  · exact overlaid.amends rendered (Grammar.follows_condition _) (fun _ _ equal => equal)
      (by simp [Expressions.toList]) rendered.condition overlaid.condition
  · exact overlaid.amends rendered (Grammar.follows_condition _) (fun _ _ equal => equal)
      (by simp [Expressions.toList]) rendered.filter overlaid.filter
  · exact overlaid.amends rendered Grammar.follows_update
      (fun _ _ equal => map_eq_map_iff_forall₂.1 equal)
      (by simp [Expressions.toList]) rendered.update overlaid.update
  · exact map_eq_of_map_range (rendered.proper.map_fst_names _)
  · exact map_eq_of_map_range (rendered.proper.map_fst_values _)
  · exact overlaid.names
  · exact overlaid.values
  · intro text
    rw [Sense.read_eq_iff]
    refine forall₂_congr fun token _ => ?_
    rw [target_of_insertAll proper overlaid.names overlaid.values]
    by_cases bound : r.form.bindings.Binds token <;> simp [bound]

/-- A preset filter whose tokens are its own is kept, and a preset condition is replaced. -/
theorem assemble_overlays_beside :
    let p : Parameters :=
      { table := "t"
        condition := some "#b = :x"
        filter := some "#a = :x"
        names := .ofList [("#a", "a"), ("#b", "b")]
        values := .ofList [(":x", .text "x")] }
    ∃ b, p.Overlays { conditions := [.equals ⟨[.name "b"]⟩ (.text "y")] } b
      { p with
        condition := some "#n0 = :v0"
        names := .ofList [("#a", "a"), ("#b", "b"), ("#n0", "b")]
        values := .ofList [(":v0", .text "y"), (":x", .text "x")] } := by
  intro p
  have compiled :
      ({ conditions := [.equals ⟨[.name "b"]⟩ (.text "y")] } : ExpressionSet).compile =
        .ok ⟨none, none, some ⟨"#attr0 = :val0", ⟨[("#attr0", "b")], [(":val0", .text "y")]⟩⟩, none,
          none⟩ := by
    rfl
  have assembled : p.assemble { conditions := [.equals ⟨[.name "b"]⟩ (.text "y")] } =
      .ok { p with
        condition := some "#n0 = :v0"
        names := .ofList [("#a", "a"), ("#b", "b"), ("#n0", "b")]
        values := .ofList [(":v0", .text "y"), (":x", .text "x")] } := by
    decide +kernel
  obtain ⟨q, hq, overlays⟩ := assemble_overlays compiled p
  obtain rfl := Except.ok.inj (hq.symm.trans assembled)
  exact overlays

/-- The tokens of a preset condition, all of them bound, are those that the condition of a set gets:
the text is kept, and says something else. -/
theorem assemble_overlays_rebound :
    let p : Parameters :=
      { table := "t"
        filter := some "#n0 = :v0"
        names := .ofList [("#n0", "a")]
        values := .ofList [(":v0", .text "x")] }
    let e : ExpressionSet := { conditions := [.equals ⟨[.name "b"]⟩ (.text "y")] }
    (∀ text ∈ p.carried.texts.reduceOption, ∀ token ∈ Token.tokens text,
        p.sense.target token ≠ .unbound token) ∧
      ∃ q, p.assemble e = .ok q ∧ q.filter = p.filter ∧
        p.sense.condition? "#n0 = :v0" = some (.equals ⟨[.name "a"]⟩ (.text "x")) ∧
        q.sense.condition? "#n0 = :v0" = some (.equals ⟨[.name "b"]⟩ (.text "y")) := by
  intro p e
  have assembled : p.assemble e =
      .ok { p with
        condition := some "#n0 = :v0"
        names := .ofList [("#n0", "b")]
        values := .ofList [(":v0", .text "y")] } := by
    decide +kernel
  refine ⟨by decide +kernel, _, assembled, rfl, ?_, ?_⟩
  · with_unfolding_all rfl
  · with_unfolding_all rfl

end Parameters

end TableClient
