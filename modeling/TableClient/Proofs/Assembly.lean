import TableClient.Assembly
import TableClient.Proofs.Canonical
import TableClient.Proofs.Condition
import TableClient.Proofs.Update

/-! Assembled parameters say what the set of expressions says.

The expressions draw their tokens one after the other from one scope, so their bindings, put
together, bind each token once (`compile_rendered`). Bringing all texts into canonical form then
changes nothing that a reader can tell but the order and repetition of the members of sets
(`tells_canonical`). So every field of assembled parameters, read with the maps beside it, says
what its part of the set says, and no other field changes (`assemble_carries`). -/
namespace TableClient

/-! ### The bindings of several fragments -/

namespace Fragment

/-- The bindings of fragments, in order. -/
def merged (fs : List Fragment) : Bindings := fs.foldl (fun b f => b ++ f.bindings) {}

theorem foldl_bindings (fs : List Fragment) (b : Bindings) :
    fs.foldl (fun b f => b ++ f.bindings) b = b ++ merged fs := by
  unfold merged
  induction fs generalizing b with
  | nil => exact b.append_empty.symm
  | cons f rest ih =>
    rw [List.foldl_cons, List.foldl_cons, ih, ih ({} ++ f.bindings), Bindings.append_assoc,
      Bindings.empty_append]

theorem merged_cons (f : Fragment) (fs : List Fragment) :
    merged (f :: fs) = f.bindings ++ merged fs :=
  foldl_bindings fs f.bindings

/-- A fragment that is missing has no bindings. -/
theorem merged_filterMap_cons (f : Option Fragment) (fs : List (Option Fragment)) :
    merged ((f :: fs).filterMap id) = made f ++ merged (fs.filterMap id) := by
  cases f with
  | none => exact (Bindings.empty_append _).symm
  | some f => exact merged_cons f _

/-- Whatever honors the bindings of all fragments honors those of each. -/
theorem honors_of_merged {σ : Sense} {fs : List Fragment} (h : σ.Honors (merged fs))
    {f : Fragment} (member : f ∈ fs) : σ.Honors f.bindings := by
  induction fs with
  | nil => cases member
  | cons first rest ih =>
    rw [merged_cons] at h
    rcases List.mem_cons.1 member with rfl | member
    · exact h.append.1
    · exact ih h.append.2 member

/-- All tokens of the text stand for something, wherever the bindings are honored. -/
def IsBound (f : Fragment) : Prop :=
  ∀ σ : Sense, σ.Honors f.bindings → ∀ token ∈ Token.tokens f.text, σ.target token ≠ .unbound token

theorem Tells.isBound {α : Type} {f : Fragment} {r : Grammar.Reader α} {a : α}
    (h : f.Tells r a) : f.IsBound := by
  intro σ honors
  obtain ⟨ls, spells, -⟩ := h σ honors
  exact spells.bound

end Fragment

/-- A token that stands for something is bound. -/
theorem Bindings.binds_of_target {b : Bindings} {token : String}
    (h : b.sense.target token ≠ .unbound token) : b.Binds token := by
  unfold Sense.target at h
  split at h
  · cases found : b.sense.name token with
    | none => simp [found] at h
    | some text => exact .inl (List.mem_map_of_mem (KeyMap.mem_of_get?_ofList found))
  · cases found : b.sense.value token with
    | none => simp [found] at h
    | some v => exact .inr (List.mem_map_of_mem (KeyMap.mem_of_get?_ofList found))

/-- In canonical form, a fragment is read as what it said, but for the order and repetition of
the members of sets. -/
theorem Fragment.tells_canonical {α : Type} {fs : List Fragment} (proper : (merged fs).Proper)
    (bound : ∀ f ∈ fs, f.IsBound) {f : Fragment} (member : f ∈ fs) {r : Grammar.Reader α} {a : α}
    (h : f.Tells r a) {g : α → α} (follows : r.Follows AttributeValue.normalized g r) :
    let form := Bindings.canonical (fs.map Fragment.text) (merged fs)
    ∃ said, r.whole (form.bindings.sense.lexemes (form.substitute f.text).toList) = some said ∧
      g said = g a := by
  intro form
  have honors := proper.honors
  have binds : ∀ text ∈ fs.map Fragment.text, ∀ token ∈ Token.tokens text,
      (merged fs).Binds token := by
    intro text ht token used
    obtain ⟨f', member', rfl⟩ := List.mem_map.1 ht
    exact Bindings.binds_of_target
      (bound f' member' _ (honors_of_merged honors member') token used)
  have read := proper.read_canonical binds (List.mem_map_of_mem member)
  obtain ⟨ls, spells, whole⟩ := h _ (honors_of_merged honors member)
  have same := follows.map_whole_eq (Lexeme.map_ofSymbols_eq read)
  rw [← Sense.lexemes, ← Sense.lexemes, spells.whole, whole] at same
  exact Option.map_eq_some_iff.1 same

/-! ### Rendering all expressions -/

namespace ExpressionSet

/-- The fragments of a set: each says what its part of the set says, and together they bind each
token once. -/
structure Renders (e : ExpressionSet) (r : Expressions (Option Fragment)) : Prop where
  projection : Option.Rel (fun f said => f.Tells Grammar.projection said) r.projection
    (Path.meaning e.projection)
  keyCondition : Option.Rel (fun f kept => f.Tells Grammar.condition kept) r.keyCondition
    (Condition.all e.keyConditions).prune
  condition : Option.Rel (fun f kept => f.Tells Grammar.condition kept) r.condition
    (Condition.all e.conditions).prune
  filter : Option.Rel (fun f kept => f.Tells Grammar.condition kept) r.filter
    (Condition.all e.filters).prune
  update : Option.Rel (fun f said => f.Tells Grammar.update said) r.update
    (UpdateAction.meaning e.updates)
  proper : (Fragment.merged (r.toList.filterMap id)).Proper

/-- If no expression has a fault, all are rendered. -/
theorem renders_of_compile {e : ExpressionSet} {r : Expressions (Option Fragment)}
    (h : e.compile = .ok r) : e.Renders r := by
  have run : e.emit.run.run {} = (.ok r, (e.emit.run.run {}).2) := Prod.ext h rfl
  obtain ⟨projection, s₁, first, run⟩ := ok_of_bind run
  obtain ⟨keyCondition, s₂, second, run⟩ := ok_of_bind run
  obtain ⟨condition, s₃, third, run⟩ := ok_of_bind run
  obtain ⟨filter, s₄, fourth, run⟩ := ok_of_bind run
  obtain ⟨update, s₅, fifth, run⟩ := ok_of_bind run
  obtain rfl := Except.ok.inj (Prod.mk.inj run).1
  obtain ⟨draws₁, tells₁⟩ := Path.compileAll_tells first
  obtain ⟨draws₂, tells₂⟩ := Condition.compile_tells second
  obtain ⟨draws₃, tells₃⟩ := Condition.compile_tells third
  obtain ⟨draws₄, tells₄⟩ := Condition.compile_tells fourth
  obtain ⟨⟨after, draws₅⟩, tells₅⟩ := UpdateAction.compileAll_tells fifth
  refine ⟨tells₁, tells₂, tells₃, tells₄, tells₅, ?_⟩
  have draws := draws₁.append (draws₂.append (draws₃.append (draws₄.append
    (draws₅.append (.refl after)))))
  simp only [Expressions.toList, Fragment.merged_filterMap_cons]
  exact draws.proper

/-- All tokens of the fragments stand for something. -/
theorem Renders.isBound {e : ExpressionSet} {r : Expressions (Option Fragment)} (h : e.Renders r)
    {f : Fragment} (member : f ∈ r.toList.filterMap id) : f.IsBound := by
  have of_rel {α : Type} {reader : Grammar.Reader α} {field : Option Fragment} {a : Option α}
      (rel : Option.Rel (fun f said => f.Tells reader said) field a) (here : field = some f) :
      f.IsBound := by
    subst here
    cases rel with
    | some tells => exact tells.isBound
  obtain ⟨field, member, found⟩ := List.mem_filterMap.1 member
  simp only [Expressions.toList, List.mem_cons, List.not_mem_nil, or_false] at member
  rcases member with rfl | rfl | rfl | rfl | rfl
  · exact of_rel h.projection found
  · exact of_rel h.keyCondition found
  · exact of_rel h.condition found
  · exact of_rel h.filter found
  · exact of_rel h.update found

end ExpressionSet

/-! ### Assembling -/

/-- The canonical form of rendered expressions. -/
def Expressions.form (r : Expressions (Option Fragment)) : Bindings.Canonical :=
  Bindings.canonical ((r.toList.filterMap id).map Fragment.text)
    (Fragment.merged (r.toList.filterMap id))

namespace Parameters

/-- What tokens stand for in the maps of parameters. -/
def sense (p : Parameters) : Sense := ⟨p.names.get?, p.values.get?⟩

/-- A field says what is meant, but for what counts as the same; it is unset if nothing is
meant. -/
def Carries {α : Type} (read : String → Option α) (same : α → α → Prop) (field : Option String)
    (meaning : Option α) : Prop :=
  Option.Rel (fun text a => ∃ said, read text = some said ∧ same said a) field meaning

/-- The expression fields, read with the maps beside them, say what a set of expressions says. -/
structure Expresses (p : Parameters) (e : ExpressionSet) : Prop where
  projection : Carries p.sense.projection? Eq p.projection (Path.meaning e.projection)
  keyCondition : Carries p.sense.condition? Condition.SameAs p.keyCondition
    (Condition.all e.keyConditions).prune
  condition : Carries p.sense.condition? Condition.SameAs p.condition
    (Condition.all e.conditions).prune
  filter : Carries p.sense.condition? Condition.SameAs p.filter (Condition.all e.filters).prune
  update : Carries p.sense.update? (List.Forall₂ UpdateAction.SameAs) p.update
    (UpdateAction.meaning e.updates)

/-- Nothing has been said in expressions yet. -/
structure IsBlank (p : Parameters) : Prop where
  projection : p.projection = none
  keyCondition : p.keyCondition = none
  condition : p.condition = none
  filter : p.filter = none
  update : p.update = none
  names : p.names = ∅
  values : p.values = ∅

/-- What assembled parameters are made of. -/
theorem assemble_ok {p q : Parameters} {e : ExpressionSet} (h : p.assemble e = .ok q) :
    ∃ r, e.compile = .ok r ∧
      q = (p.forIndex.setTexts r.form.substitute r).bind r.form.bindings := by
  unfold assemble at h
  cases compiled : e.compile with
  | error fault =>
    rw [compiled] at h
    cases h
  | ok r =>
    rw [compiled] at h
    exact ⟨r, rfl, (Except.ok.inj h).symm⟩

/-- A field set to the canonical text of a fragment says what the fragment says. -/
theorem carries_canonical {e : ExpressionSet} {r : Expressions (Option Fragment)}
    (rendered : e.Renders r) {α : Type} {reader : Grammar.Reader α} {g : α → α}
    (follows : reader.Follows AttributeValue.normalized g reader)
    {same : α → α → Prop} (agrees : ∀ said a, g said = g a → same said a)
    {fragment : Option Fragment} (member : fragment ∈ r.toList) {meaning : Option α}
    (rel : Option.Rel (fun f said => f.Tells reader said) fragment meaning) :
    Carries (fun text => reader.whole (r.form.bindings.sense.lexemes text.toList)) same
      (fragment.map fun f => r.form.substitute f.text) meaning := by
  cases rel with
  | none => exact .none
  | some tells =>
    obtain ⟨said, read, equal⟩ := Fragment.tells_canonical rendered.proper
      (fun f => rendered.isBound) (List.mem_filterMap.2 ⟨_, member, rfl⟩) tells follows
    exact .some ⟨said, read, agrees said _ equal⟩

/-- Where nothing was bound before, the bindings are all there is. -/
theorem sense_insertAll (b : Bindings) {names : KeyMap String} {values : KeyMap AttributeValue}
    (noNames : names = ∅) (noValues : values = ∅) :
    Sense.mk (names.insertAll b.names).get? (values.insertAll b.values).get? = b.sense := by
  rw [noNames, noValues, KeyMap.insertAll_empty, KeyMap.insertAll_empty]
  rfl

theorem forIndex_eq (p : Parameters) : p.forIndex =
    { p with consistentRead := if p.index.isSome then none else p.consistentRead } := by
  unfold forIndex
  split <;> rfl

/-- Texts are set in fields that had none. -/
theorem setTexts_eq {p : Parameters} (blank : p.IsBlank) (substitute : String → String)
    (r : Expressions (Option Fragment)) : p.setTexts substitute r =
      { p with
        projection := r.projection.map fun f => substitute f.text
        keyCondition := r.keyCondition.map fun f => substitute f.text
        condition := r.condition.map fun f => substitute f.text
        filter := r.filter.map fun f => substitute f.text
        update := r.update.map fun f => substitute f.text } := by
  simp only [setTexts, blank.projection, blank.keyCondition, blank.condition, blank.filter,
    blank.update]
  congr 1
  · cases r.keyCondition <;> rfl
  · cases r.condition <;> rfl
  · cases r.filter <;> rfl
  · cases r.projection <;> rfl
  · cases r.update <;> rfl

theorem IsBlank.forIndex {p : Parameters} (blank : p.IsBlank) : p.forIndex.IsBlank := by
  rw [forIndex_eq]
  exact ⟨blank.1, blank.2, blank.3, blank.4, blank.5, blank.6, blank.7⟩

/-- **Assembled parameters say what the set of expressions says**: the projection its distinct
paths, each condition the conjunction of its own conditions without empty groups, the update
the actions that change something, clause after clause. A field is unset exactly if there is
nothing to say, and no other field changes, but that an index takes no consistent read. -/
theorem assemble_expresses {p q : Parameters} {e : ExpressionSet} (blank : p.IsBlank)
    (h : p.assemble e = .ok q) :
    q.Expresses e ∧ q =
      { p with
        projection := q.projection
        keyCondition := q.keyCondition
        condition := q.condition
        filter := q.filter
        update := q.update
        names := q.names
        values := q.values
        consistentRead := if p.index.isSome then none else p.consistentRead } := by
  obtain ⟨r, compiled, rfl⟩ := assemble_ok h
  have rendered := ExpressionSet.renders_of_compile compiled
  rw [setTexts_eq blank.forIndex, forIndex_eq]
  refine ⟨?_, rfl⟩
  constructor <;> rw [sense, bind, sense_insertAll _ blank.names blank.values]
  · exact carries_canonical rendered (Grammar.follows_projection _) (fun _ _ equal => equal)
      (by simp [Expressions.toList]) rendered.projection
  · exact carries_canonical rendered (Grammar.follows_condition _) (fun _ _ equal => equal)
      (by simp [Expressions.toList]) rendered.keyCondition
  · exact carries_canonical rendered (Grammar.follows_condition _) (fun _ _ equal => equal)
      (by simp [Expressions.toList]) rendered.condition
  · exact carries_canonical rendered (Grammar.follows_condition _) (fun _ _ equal => equal)
      (by simp [Expressions.toList]) rendered.filter
  · refine carries_canonical rendered Grammar.follows_update (fun said actions equal => ?_)
      (by simp [Expressions.toList]) rendered.update
    rw [← List.forall₂_eq_eq_eq, List.forall₂_map_left_iff, List.forall₂_map_right_iff] at equal
    exact equal

/-- A query of an index: the name that its texts share has one token, and so have two sets with
the same members. -/
theorem assemble_expresses_index :
    ∃ q : Parameters,
      assemble { table := "t", index := some "i", consistentRead := some true }
        { projection := [⟨[.name "a"]⟩, ⟨[.name "b", .index 0]⟩, ⟨[.name "a"]⟩]
          keyConditions := [.equals ⟨[.name "a"]⟩ (.textSet ["x", "y"]), .all []]
          filters := [.not (.equals ⟨[.name "b"]⟩ (.textSet ["y", "x", "y"]))] } = .ok q ∧
      q.Expresses
        { projection := [⟨[.name "a"]⟩, ⟨[.name "b", .index 0]⟩, ⟨[.name "a"]⟩]
          keyConditions := [.equals ⟨[.name "a"]⟩ (.textSet ["x", "y"]), .all []]
          filters := [.not (.equals ⟨[.name "b"]⟩ (.textSet ["y", "x", "y"]))] } ∧
      q =
        { table := "t"
          index := some "i"
          projection := some "#n0, #n1[0]"
          keyCondition := some "#n0 = :v0"
          filter := some "NOT #n1 = :v0"
          names := KeyMap.ofList [("#n0", "a"), ("#n1", "b")]
          values := KeyMap.ofList [(":v0", .textSet ["x", "y"])] } := by
  have assembled : assemble { table := "t", index := some "i", consistentRead := some true }
      { projection := [⟨[.name "a"]⟩, ⟨[.name "b", .index 0]⟩, ⟨[.name "a"]⟩]
        keyConditions := [.equals ⟨[.name "a"]⟩ (.textSet ["x", "y"]), .all []]
        filters := [.not (.equals ⟨[.name "b"]⟩ (.textSet ["y", "x", "y"]))] } =
      .ok
        { table := "t"
          index := some "i"
          projection := some "#n0, #n1[0]"
          keyCondition := some "#n0 = :v0"
          filter := some "NOT #n1 = :v0"
          names := KeyMap.ofList [("#n0", "a"), ("#n1", "b")]
          values := KeyMap.ofList [(":v0", .textSet ["x", "y"])] } := by
    decide +kernel
  have blank : IsBlank { table := "t", index := some "i", consistentRead := some true } :=
    ⟨rfl, rfl, rfl, rfl, rfl, rfl, rfl⟩
  exact ⟨_, assembled, (assemble_expresses blank assembled).1, rfl⟩

end Parameters

end TableClient
