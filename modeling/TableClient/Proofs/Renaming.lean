import Mathlib.Logic.Equiv.Basic
import TableClient.Proofs.Assembly
import TableClient.Proofs.Except
import TableClient.Proofs.Minimal

/-! Attribute names do not show in the texts of expressions.

A text refers to an attribute name through a token, and which token that is depends on which
names are equal and on nothing else about them. So a renaming that keeps different names apart,
and the empty one empty, goes through every stage. An expression with its names renamed is
rendered to the same text, and what is bound, or wrong, is renamed with it (`Mirrors`); of two
targets, folding asks only whether they are equal, and renumbering does not ask for them at all
(`canonical_rename`). What is left of a renaming in assembled parameters is the map of names
(`assemble_rename`). -/
namespace TableClient

/-- A renaming of attribute names. The empty name, which no path may have, stays empty and is the
only one to be so. -/
structure IsRenaming (r : String → String) : Prop where
  injective : Function.Injective r
  empty : r "" = ""

theorem IsRenaming.isEmpty {r : String → String} (h : IsRenaming r) (text : String) :
    (r text).isEmpty = text.isEmpty := by
  rw [Bool.eq_iff_iff, String.isEmpty_iff, String.isEmpty_iff]
  constructor
  · intro renamed
    exact h.injective (renamed.trans h.empty.symm)
  · rintro rfl
    exact h.empty

/-! ### What is renamed -/

section Renamed
variable (r : String → String)

/-- A segment with its name renamed. -/
def Segment.rename : Segment → Segment
  | .name text => .name (r text)
  | .index n => .index n

/-- A path with its names renamed. -/
def Path.rename (p : Path) : Path := ⟨p.segments.map (Segment.rename r)⟩

namespace Condition

mutual
/-- A condition with the names of its paths renamed. -/
def rename : Condition → Condition
  | .compare op p v => .compare op (p.rename r) v
  | .between p low high => .between (p.rename r) low high
  | .isIn p candidates => .isIn (p.rename r) candidates
  | .test function p arguments => .test function (p.rename r) arguments
  | .size op p v => .size op (p.rename r) v
  | .all conditions => .all (renameList conditions)
  | .any conditions => .any (renameList conditions)
  | .not c => .not (rename c)

def renameList : List Condition → List Condition
  | [] => []
  | c :: rest => rename c :: renameList rest
end

theorem renameList_eq_map (conditions : List Condition) :
    renameList r conditions = conditions.map (rename r) := by
  induction conditions with
  | nil => rfl
  | cons c rest ih => rw [renameList, ih, List.map_cons]

end Condition

/-- An action with the names of its path renamed. -/
def UpdateAction.rename : UpdateAction → UpdateAction
  | .set p v => .set (p.rename r) v
  | .setIfMissing p v => .setIfMissing (p.rename r) v
  | .increment p delta => .increment (p.rename r) delta
  | .decrement p delta => .decrement (p.rename r) delta
  | .append p items => .append (p.rename r) items
  | .prepend p items => .prepend (p.rename r) items
  | .add p v => .add (p.rename r) v
  | .remove p => .remove (p.rename r)
  | .deleteFrom p members => .deleteFrom (p.rename r) members

/-- A set of expressions with the names of all its paths renamed. -/
def ExpressionSet.rename (e : ExpressionSet) : ExpressionSet where
  projection := e.projection.map (Path.rename r)
  keyConditions := e.keyConditions.map (Condition.rename r)
  conditions := e.conditions.map (Condition.rename r)
  filters := e.filters.map (Condition.rename r)
  updates := e.updates.map (UpdateAction.rename r)

/-- A fault of an expression with its names renamed. -/
def ExpressionFault.rename : ExpressionFault → ExpressionFault
  | .emptyPath => .emptyPath
  | .invalidPath p reason => .invalidPath (p.rename r) reason
  | .noCandidates p => .noCandidates (p.rename r)

/-- A failure of a request with the names of its expressions renamed. -/
def Failure.rename : Failure → Failure
  | .expression fault => .expression (fault.rename r)
  | other => other

/-- Bindings of renamed names. -/
def Bindings.rename (b : Bindings) : Bindings := ⟨b.names.map (Prod.map id r), b.values⟩

/-- The same text, with its names renamed. -/
def Fragment.rename (f : Fragment) : Fragment := ⟨f.text, f.bindings.rename r⟩

/-- The state of rendering an expression with its names renamed. -/
def Emitter.rename (e : Emitter) : Emitter := ⟨e.scope, e.bindings.rename r⟩

/-- Parameters with the names that their tokens stand for renamed. -/
def Parameters.rename (p : Parameters) : Parameters := { p with names := p.names.map r }

/-- One value for each expression, changed. -/
def Expressions.map {α β : Type} (f : α → β) (e : Expressions α) : Expressions β :=
  ⟨f e.projection, f e.keyCondition, f e.condition, f e.filter, f e.update⟩

end Renamed

variable {r : String → String}

theorem Segment.rename_injective (injective : Function.Injective r) :
    Function.Injective (Segment.rename r) := by
  intro s s' same
  cases s <;> cases s' <;> simp only [rename, name.injEq, index.injEq, reduceCtorEq] at same
  · rw [injective same]
  · rw [same]

theorem Path.rename_injective (injective : Function.Injective r) :
    Function.Injective (Path.rename r) := by
  rintro ⟨segments⟩ ⟨segments'⟩ same
  rw [rename, rename, Path.mk.injEq] at same
  exact congrArg Path.mk ((Segment.rename_injective injective).list_map same)

theorem Bindings.rename_append (b c : Bindings) :
    (b ++ c).rename r = b.rename r ++ c.rename r :=
  congrArg (Bindings.mk · _) List.map_append

theorem Fragment.merged_rename (fs : List Fragment) :
    merged (fs.map (rename r)) = (merged fs).rename r := by
  induction fs with
  | nil => rfl
  | cons f rest ih => rw [List.map_cons, merged_cons, merged_cons, ih, Bindings.rename_append]; rfl

/-! ### Mirrored steps -/

section Mirrors
variable {σ α β : Type} {state : σ → σ} {view : α → α} {view' : β → β}
  {m m' : ExceptT ExpressionFault (StateM σ) α} {k k' : α → ExceptT ExpressionFault (StateM σ) β}

/-- What something came to, as `view` shows it and with its fault renamed. -/
def mirrored (r : String → String) (view : α → α) (result : Except ExpressionFault α) :
    Except ExpressionFault α :=
  (result.map view).mapError (ExpressionFault.rename r)

/-- From a state as `state` shows it, `m'` comes to what `m` comes to, in the same view. -/
def Mirrors (r : String → String) (state : σ → σ) (view : α → α)
    (m m' : ExceptT ExpressionFault (StateM σ) α) : Prop :=
  ∀ s, m'.run.run (state s) = Prod.map (mirrored r view) state (m.run.run s)

namespace Mirrors

theorem pure (a : α) : Mirrors r state view (Pure.pure a) (Pure.pure (view a)) := fun _ => rfl

theorem throw (fault : ExpressionFault) :
    Mirrors r state view (MonadExcept.throw fault) (MonadExcept.throw (fault.rename r)) :=
  fun _ => rfl

/-- What comes after is mirrored where it gets what is shown of the step before. -/
theorem bind (hm : Mirrors r state view m m')
    (hk : ∀ a, Mirrors r state view' (k a) (k' (view a))) :
    Mirrors r state view' (m >>= k) (m' >>= k') := by
  intro s
  have first := hm s
  rw [ExceptT.run_bind, StateT.run_bind, ExceptT.run_bind, StateT.run_bind, first]
  rcases run : m.run.run s with ⟨result, between⟩
  cases result with
  | error fault => rfl
  | ok a => exact hk a between

theorem ite {c : Prop} [Decidable c] {n n' : ExceptT ExpressionFault (StateM σ) α}
    (h : c → Mirrors r state view m m') (h' : ¬c → Mirrors r state view n n') :
    Mirrors r state view (if c then m else n) (if c then m' else n') := by
  split
  · next holds => exact h holds
  · next fails => exact h' fails

/-- A check that is mirrored, before what it guards. -/
theorem guarded {c : Prop} [Decidable c] {fault : ExpressionFault}
    {next next' : PUnit → ExceptT ExpressionFault (StateM σ) α}
    (h : Mirrors r state view (next ⟨⟩) (next' ⟨⟩)) :
    Mirrors r state view (if c then MonadExcept.throw fault >>= next else next ⟨⟩)
      (if c then MonadExcept.throw (fault.rename r) >>= next' else next' ⟨⟩) :=
  .ite (fun _ _ => rfl) fun _ => h

end Mirrors

end Mirrors

namespace Emit
variable {α : Type}

/-- Renderings of the same, but that the second binds renamed names. -/
abbrev Mirrored (r : String → String) (m m' : Emit α) : Prop :=
  Mirrors r (Emitter.rename r) id m m'

theorem mirrored_name (text : String) : Mirrored r (name text) (name (r text)) := by
  intro e
  have bound : (e.bindings.names ++ [(Scope.nameToken e.scope.names, text)]).map (Prod.map id r) =
      e.bindings.names.map (Prod.map id r) ++ [(Scope.nameToken e.scope.names, r text)] :=
    List.map_append
  show _ = (_, Emitter.mk _ ⟨List.map _ (_ ++ [(Scope.nameToken _, text)]), _⟩)
  rw [bound]
  rfl

theorem mirrored_value (v : AttributeValue) : Mirrored r (value v) (value v) := fun _ => rfl

theorem mirrored_values (vs : List AttributeValue) : Mirrored r (values vs) (values vs) := by
  induction vs with
  | nil => exact .pure _
  | cons v rest ih => exact (mirrored_value v).bind fun token => ih.bind fun tokens => .pure _

/-- An expression of its own is the same text with its names renamed. -/
theorem fragment_rename {render render' : Emit String} (h : Mirrored r render render')
    (s : Scope) :
    fragment render' s = Prod.map (mirrored r (Fragment.rename r)) id (fragment render s) := by
  have run : render'.run.run ⟨s, {}⟩ = _ := h ⟨s, {}⟩
  unfold fragment
  rw [run]
  rcases render.run.run ⟨s, {}⟩ with ⟨result, e⟩
  cases result <;> rfl

theorem fragment?_rename {render render' : Emit (Option String)} (h : Mirrored r render render')
    (s : Scope) :
    fragment? render' s =
      Prod.map (mirrored r (Option.map (Fragment.rename r))) id (fragment? render s) := by
  have run : render'.run.run ⟨s, {}⟩ = _ := h ⟨s, {}⟩
  unfold fragment?
  rw [run]
  rcases render.run.run ⟨s, {}⟩ with ⟨result, e⟩
  rcases result with fault | (_ | text) <;> rfl

end Emit

/-! ### Paths -/

namespace Path

theorem mirrored_emitLater (h : IsRenaming r) (whole : Path) (later : List Segment) :
    Emit.Mirrored r (emitLater whole later)
      (emitLater (whole.rename r) (later.map (Segment.rename r))) := by
  induction later with
  | nil => exact .pure _
  | cons segment rest ih =>
    cases segment with
    | name text =>
      rw [List.map_cons, Segment.rename]
      unfold emitLater
      rw [h.isEmpty]
      exact .guarded ((Emit.mirrored_name text).bind fun token => ih.bind fun more => .pure _)
    | index n => exact ih.bind fun more => .pure _

/-- Of a name, a path checks only whether it is empty. -/
theorem mirrored_emit (h : IsRenaming r) (p : Path) : Emit.Mirrored r p.emit (p.rename r).emit := by
  obtain ⟨segments⟩ := p
  match segments with
  | [] => exact .throw _
  | .index _ :: _ => exact .throw _
  | .name first :: later =>
    rw [rename, List.map_cons, Segment.rename]
    unfold emit
    dsimp only
    rw [h.isEmpty]
    refine .guarded ((Emit.mirrored_name first).bind fun token => ?_)
    exact (mirrored_emitLater h _ later).bind fun more => .pure _

theorem mirrored_emitAll (h : IsRenaming r) (ps : List Path) :
    Emit.Mirrored r (emitAll ps) (emitAll (ps.map (rename r))) := by
  induction ps with
  | nil => exact .pure _
  | cons p rest ih => exact (p.mirrored_emit h).bind fun text => ih.bind fun texts => .pure _

/-- Paths that differ still differ when they are renamed, so the same of them count. -/
theorem mirrors_compileAll (h : IsRenaming r) (ps : List Path) :
    Mirrors r id (Option.map (Fragment.rename r)) (ExceptT.mk (compileAll ps))
      (ExceptT.mk (compileAll (ps.map (rename r)))) := by
  intro s
  show compileAll (ps.map (rename r)) s = Prod.map _ id (compileAll ps s)
  have distinct : (ps.map (rename r)).eraseDups = ps.eraseDups.map (rename r) :=
    Bindings.eraseDups_map fun _ _ _ _ same => rename_injective h.injective same
  unfold compileAll
  rw [distinct]
  match ps.eraseDups with
  | [] => rfl
  | first :: others =>
    exact Emit.fragment?_rename ((mirrored_emitAll h (first :: others)).bind fun _ => .pure _) s

end Path

/-! ### Conditions -/

namespace Condition

theorem isComposite_rename (c : Condition) : (c.rename r).isComposite = c.isComposite := by
  cases c <;> rfl

theorem operand_rename (c : Condition) (text : String) :
    (c.rename r).operand text = c.operand text := by
  rw [operand, operand, isComposite_rename]

mutual
/-- Pruning does not look at names. -/
theorem prune_rename (c : Condition) : (c.rename r).prune = c.prune.map (rename r) := by
  cases c with
  | all conditions =>
    rw [rename, prune, prune, pruneList_renameList]
    exact regroup_map (fun cs => by rw [rename, renameList_eq_map]) _
  | any conditions =>
    rw [rename, prune, prune, pruneList_renameList]
    exact regroup_map (fun cs => by rw [rename, renameList_eq_map]) _
  | not c =>
    rw [rename, prune, prune, prune_rename c, Option.map_map, Option.map_map]
    rfl
  | _ => rfl

theorem pruneList_renameList (cs : List Condition) :
    pruneList (renameList r cs) = (pruneList cs).map (rename r) := by
  cases cs with
  | nil => rfl
  | cons c rest =>
    rw [renameList, pruneList, pruneList, prune_rename c, pruneList_renameList rest]
    cases c.prune <;> rfl
end

mutual
theorem mirrored_emit (h : IsRenaming r) (c : Condition) :
    Emit.Mirrored r c.emit (c.rename r).emit := by
  cases c with
  | compare op p v | size op p v =>
    exact (p.mirrored_emit h).bind fun pt => (Emit.mirrored_value v).bind fun vt => .pure _
  | between p low high =>
    refine (p.mirrored_emit h).bind fun pt => (Emit.mirrored_value low).bind fun lt => ?_
    exact (Emit.mirrored_value high).bind fun ht => .pure _
  | isIn p candidates =>
    rw [rename]
    unfold emit
    refine .guarded ((p.mirrored_emit h).bind fun pt => ?_)
    exact (Emit.mirrored_values candidates).bind fun vts => .pure _
  | test function p arguments =>
    refine (p.mirrored_emit h).bind fun pt => ?_
    exact (Emit.mirrored_values arguments).bind fun vts => .pure _
  | all conditions | any conditions =>
    exact (mirrored_emitOperands h conditions).bind fun texts => .pure _
  | not c =>
    refine (mirrored_emit h c).bind fun text => ?_
    rw [operand_rename]
    exact .pure _

theorem mirrored_emitOperands (h : IsRenaming r) (cs : List Condition) :
    Emit.Mirrored r (emitOperands cs) (emitOperands (renameList r cs)) := by
  cases cs with
  | nil => exact .pure _
  | cons c rest =>
    refine (mirrored_emit h c).bind fun text => ?_
    rw [operand_rename]
    exact (mirrored_emitOperands h rest).bind fun texts => .pure _
end

theorem mirrors_compileAll (h : IsRenaming r) (cs : List Condition) :
    Mirrors r id (Option.map (Fragment.rename r)) (ExceptT.mk (compileAll cs))
      (ExceptT.mk (compileAll (cs.map (rename r)))) := by
  intro s
  show compileAll (cs.map (rename r)) s = Prod.map _ id (compileAll cs s)
  have pruned : (Condition.all (cs.map (rename r))).prune =
      (Condition.all cs).prune.map (rename r) := by
    rw [← prune_rename, rename, renameList_eq_map]
  unfold compileAll compile
  rw [pruned]
  cases (Condition.all cs).prune with
  | none => rfl
  | some kept =>
    have rendered := Emit.fragment_rename (kept.mirrored_emit h) s
    rw [Option.map_some]
    dsimp only
    rw [rendered]
    rcases Emit.fragment kept.emit s with ⟨result, after⟩
    cases result <;> rfl

end Condition

/-! ### Updates -/

namespace UpdateAction

theorem mirrored_emitStep (h : IsRenaming r) (p : Path) (sign : String) (delta : AttributeValue) :
    Emit.Mirrored r (emitStep p sign delta) (emitStep (p.rename r) sign delta) := by
  refine (p.mirrored_emit h).bind fun pt => (Emit.mirrored_value _).bind fun zt => ?_
  exact (Emit.mirrored_value delta).bind fun dt => .pure _

theorem mirrored_emit (h : IsRenaming r) (a : UpdateAction) :
    Emit.Mirrored r a.emit (a.rename r).emit := by
  cases a with
  | set p v | setIfMissing p v =>
    exact (p.mirrored_emit h).bind fun pt => (Emit.mirrored_value v).bind fun vt => .pure _
  | increment p delta | decrement p delta =>
    exact (mirrored_emitStep h p _ delta).bind fun text => .pure _
  | append p items | prepend p items =>
    rw [rename]
    unfold emit
    refine .ite (fun _ => .pure _) fun _ => (p.mirrored_emit h).bind fun pt => ?_
    exact (Emit.mirrored_value _).bind fun first => (Emit.mirrored_value _).bind fun _ => .pure _
  | add p v | deleteFrom p v =>
    rw [rename]
    unfold emit
    refine .ite (fun _ => .pure _) fun _ => (p.mirrored_emit h).bind fun pt => ?_
    exact (Emit.mirrored_value v).bind fun vt => .pure _
  | remove p => exact (p.mirrored_emit h).bind fun pt => .pure _

theorem mirrored_emitAll (h : IsRenaming r) (actions : List UpdateAction) :
    Emit.Mirrored r (emitAll actions) (emitAll (actions.map (rename r))) := by
  induction actions with
  | nil => exact .pure _
  | cons a rest ih =>
    refine (a.mirrored_emit h).bind fun text => ?_
    cases text with
    | none => exact ih
    | some text => exact ih.bind fun texts => .pure _

/-- The clause of an action is not that of a name. -/
theorem filter_rename (actions : List UpdateAction) (c : Clause) :
    (actions.map (rename r)).filter (fun a => a.clause = c) =
      (actions.filter fun a => a.clause = c).map (rename r) := by
  have same (a : UpdateAction) : (a.rename r).clause = a.clause := by cases a <;> rfl
  simp only [List.filter_map, Function.comp_def, same]

theorem mirrored_emitClauses (h : IsRenaming r) (actions : List UpdateAction) (cs : List Clause) :
    Emit.Mirrored r (emitClauses actions cs) (emitClauses (actions.map (rename r)) cs) := by
  induction cs with
  | nil => exact .pure _
  | cons c rest ih =>
    unfold emitClauses
    rw [filter_rename]
    refine (mirrored_emitAll h _).bind fun texts => ih.bind fun later => ?_
    exact .ite (fun _ => .pure _) fun _ => .pure _

theorem mirrors_compileAll (h : IsRenaming r) (actions : List UpdateAction) :
    Mirrors r id (Option.map (Fragment.rename r)) (ExceptT.mk (compileAll actions))
      (ExceptT.mk (compileAll (actions.map (rename r)))) :=
  Emit.fragment?_rename ((mirrored_emitClauses h actions Clause.all).bind fun _ => .pure _)

end UpdateAction

/-! ### Sets of expressions -/

/-- The names of a set of expressions make no difference to its texts. -/
theorem ExpressionSet.compile_rename (h : IsRenaming r) (e : ExpressionSet) :
    (e.rename r).compile =
      mirrored r (Expressions.map (Option.map (Fragment.rename r))) e.compile := by
  have mirrors : Mirrors r id (Expressions.map (Option.map (Fragment.rename r))) e.emit
      (e.rename r).emit := by
    refine (Path.mirrors_compileAll h _).bind fun projection => ?_
    refine (Condition.mirrors_compileAll h _).bind fun keyCondition => ?_
    refine (Condition.mirrors_compileAll h _).bind fun condition => ?_
    refine (Condition.mirrors_compileAll h _).bind fun filter => ?_
    exact (UpdateAction.mirrors_compileAll h _).bind fun update => .pure _
  exact congrArg Prod.fst (mirrors {})

/-! ### The canonical form -/

namespace Bindings

section Targets
variable {α β : Type} {same : α → α → Bool} {same' : β → β → Bool} {f : α → β}

/-- Folded bindings with their targets changed. -/
def Folded.map (f : α → β) (folded : Folded α) : Folded β :=
  ⟨folded.kept.map (Prod.map id f), folded.aliases⟩

theorem Folded.add_map (agrees : ∀ a b, same' (f a) (f b) = same a b) (folded : Folded α)
    (binding : String × α) :
    (folded.map f).add same' (Prod.map id f binding) = (folded.add same binding).map f := by
  unfold add map
  simp only [List.find?_map, Function.comp_def, Prod.map_snd, agrees]
  cases folded.kept.find? fun first => same first.2 binding.2 <;> simp

/-- Folding asks of targets only whether they are the same. -/
theorem fold_map (agrees : ∀ a b, same' (f a) (f b) = same a b) (bindings : List (String × α)) :
    fold same' (bindings.map (Prod.map id f)) = (fold same bindings).map f := by
  unfold fold
  rw [List.foldl_map]
  show List.foldl _ (Folded.map f ⟨[], []⟩) bindings = _
  exact List.foldl_hom (Folded.map f) fun folded binding => folded.add_map agrees binding

theorem rebind_map (f : α → β) (targets : KeyMap α) (numbered : List (String × String)) :
    rebind (targets.map f) numbered = (rebind targets numbered).map (Prod.map id f) := by
  unfold rebind
  rw [List.map_filterMap]
  simp only [KeyMap.get?_map, Option.map_map, Function.comp_def, Prod.map_apply, id_eq]

end Targets

/-- Renumbering asks of names only whether a token is bound to one. -/
theorem renumber_map (texts : List String) (names : KeyMap String)
    (values : KeyMap AttributeValue) :
    renumber texts (names.map r) values =
      ⟨(renumber texts names values).substitute,
        (renumber texts names values).bindings.rename r⟩ := by
  unfold renumber rename
  simp only [KeyMap.get?_map, Option.isSome_map, Option.isNone_map, rebind_map]

/-- The canonical form of bindings does not depend on the names that are bound. -/
theorem canonical_rename (injective : Function.Injective r) (texts : List String) (b : Bindings) :
    canonical texts (b.rename r) =
      ⟨(canonical texts b).substitute, (canonical texts b).bindings.rename r⟩ := by
  -- a renaming that makes two names one would have folding drop a binding more
  have names : fold (· = ·) (b.names.map (Prod.map id r)) = (fold (· = ·) b.names).map r :=
    fold_map (fun a c => decide_eq_decide.2 injective.eq_iff) b.names
  unfold canonical
  simp only [rename, names, Folded.map, ← KeyMap.map_ofList, renumber_map]

end Bindings

/-! ### Assembled parameters -/

theorem Expressions.form_rename (injective : Function.Injective r)
    (e : Expressions (Option Fragment)) :
    (e.map (Option.map (Fragment.rename r))).form =
      ⟨e.form.substitute, e.form.bindings.rename r⟩ := by
  have fragments : (e.map (Option.map (Fragment.rename r))).toList.filterMap id =
      (e.toList.filterMap id).map (Fragment.rename r) := by
    show (e.toList.map (Option.map (Fragment.rename r))).filterMap id = _
    rw [List.filterMap_map, List.map_filterMap]
    rfl
  rw [form, fragments, Fragment.merged_rename, List.map_map, Bindings.canonical_rename injective]
  rfl

namespace Parameters

theorem setTexts_rename (p : Parameters) (substitute : String → String)
    (e : Expressions (Option Fragment)) :
    (p.rename r).setTexts substitute (e.map (Option.map (Fragment.rename r))) =
      (p.setTexts substitute e).rename r := by
  simp only [setTexts, rename, Expressions.map]
  congr 1
  · cases e.keyCondition <;> rfl
  · cases e.condition <;> rfl
  · cases e.filter <;> rfl
  · cases e.projection <;> rfl
  · cases e.update <;> rfl

theorem bind_rename (p : Parameters) (b : Bindings) :
    (p.rename r).bind (b.rename r) = (p.bind b).rename r := by
  unfold bind rename Bindings.rename
  rw [KeyMap.map_insertAll]

theorem forIndex_rename (p : Parameters) : (p.rename r).forIndex = p.forIndex.rename r := by
  rw [forIndex_eq, forIndex_eq]
  rfl

/-- Renamed expressions are assembled to what the expressions are, with the names renamed. -/
theorem assemble_rename (h : IsRenaming r) (p : Parameters) (e : ExpressionSet) :
    (p.rename r).assemble (e.rename r) =
      ((p.assemble e).map (rename r)).mapError (Failure.rename r) := by
  unfold assemble
  rw [e.compile_rename h]
  cases e.compile with
  | error fault => rfl
  | ok rendered =>
    have form := rendered.form_rename h.injective
    have same := bind_rename (r := r) (p.forIndex.setTexts rendered.form.substitute rendered)
      rendered.form.bindings
    rw [← setTexts_rename, ← forIndex_rename] at same
    refine congrArg Except.ok (Eq.trans ?_ same)
    show ((p.rename r).forIndex.setTexts (Expressions.form _).substitute _).bind
      (Expressions.form _).bindings = _
    rw [form]

/-- **Assembling does not see what attributes are called.** Where no names are at hand, a renaming
that keeps different names apart, and the empty one empty, makes no difference to whether a set of
expressions is assembled. If it is, all texts and values are the same, and so is every other field,
but that the tokens of names stand for the renamed names. If it is not, the failure is the same,
with the names in it renamed. -/
theorem names_unseen (h : IsRenaming r) {p : Parameters} (unnamed : p.names = ∅)
    (e : ExpressionSet) :
    ((∃ q, p.assemble (e.rename r) = .ok q) ↔ ∃ q, p.assemble e = .ok q) ∧
    (∀ q, p.assemble e = .ok q →
      p.assemble (e.rename r) = .ok { q with names := q.names.map r }) ∧
    ∀ failure, p.assemble e = .error failure →
      p.assemble (e.rename r) = .error (failure.rename r) := by
  have blind : p.rename r = p := by
    rw [rename, unnamed, KeyMap.map_empty, ← unnamed]
  have renamed := assemble_rename h p e
  rw [blind] at renamed
  refine ⟨?_, fun q assembled => ?_, fun failure failed => ?_⟩
  · rw [← error?_eq_none_iff, ← error?_eq_none_iff, renamed]
    cases p.assemble e with
    | ok q => exact iff_of_true rfl rfl
    | error failure => exact iff_of_false nofun nofun
  · rw [renamed, assembled]
    rfl
  · rw [renamed, failed]
    rfl

/-- A name that is spelled like a piece of an expression stands in no text. -/
theorem names_unseen_spelled :
    let r : String → String := Equiv.swap "state" "a.b[0] = :v0) OR (#n1"
    let e : ExpressionSet :=
      { projection := [⟨[.name "state"]⟩, ⟨[.name "a", .index 0]⟩, ⟨[.name "state"]⟩]
        filters := [.any [.equals ⟨[.name "a"]⟩ (.text "x"), .missing ⟨[.name "state"]⟩]] }
    let q : Parameters :=
      { table := "t"
        projection := some "#n0, #n1[0]"
        filter := some "#n1 = :v0 OR attribute_not_exists(#n0)"
        names := KeyMap.ofList [("#n0", "state"), ("#n1", "a")]
        values := KeyMap.ofList [(":v0", .text "x")] }
    IsRenaming r ∧ assemble { table := "t" } e = .ok q ∧
      assemble { table := "t" } (e.rename r) =
        .ok { q with
          names := KeyMap.ofList [("#n0", "a.b[0] = :v0) OR (#n1"), ("#n1", "a")] } := by
  intro r e q
  have isRenaming : IsRenaming r := ⟨Equiv.injective _, by decide +kernel⟩
  have assembled : assemble { table := "t" } e = .ok q := by decide +kernel
  have names : q.names.map r = KeyMap.ofList [("#n0", "a.b[0] = :v0) OR (#n1"), ("#n1", "a")] := by
    rw [KeyMap.map_ofList]
    decide +kernel
  have renamed := (names_unseen isRenaming rfl e).2.1 q assembled
  rw [names] at renamed
  exact ⟨isRenaming, assembled, renamed⟩

end Parameters

end TableClient
