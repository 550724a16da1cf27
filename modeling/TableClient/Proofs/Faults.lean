import Mathlib.Data.List.Induction
import TableClient.Assembly
import TableClient.Proofs.Except
import TableClient.Proofs.Pruning
import TableClient.Proofs.Update

/-! Assembling fails exactly where an expression is unsound, with the first fault there is.

What is wrong with a path or a test can be told from it alone (`Path.fault?`,
`Condition.fault?`). A rendering meets the faults of its parts from left to right and stops at
the first (`Meets`); neither what was drawn before nor what pruning takes out makes a
difference. So the faults of a set of expressions in their order (`ExpressionSet.faults`) decide
whether parameters can be assembled and what is reported if not (`assemble_reports`). -/
namespace TableClient

/-! ### What is wrong with an expression -/

/-- A path begins with a name and has no empty one. -/
structure Path.IsSound (p : Path) : Prop where
  rooted : p.IsRooted
  named : .name "" ∉ p.segments

/-- What is wrong with a path. That it begins with an index comes before its empty names. -/
def Path.fault? (p : Path) : Option ExpressionFault :=
  match p.segments with
  | [] => some .emptyPath
  | .index _ :: _ => some (.invalidPath p .leadingIndex)
  | .name _ :: _ =>
    if .name "" ∈ p.segments then some (.invalidPath p .emptyName) else none

theorem Path.fault?_eq_none_iff {p : Path} : p.fault? = none ↔ p.IsSound := by
  obtain ⟨segments⟩ := p
  unfold fault?
  match segments with
  | [] => exact ⟨nofun, fun ⟨⟨_, _, shape⟩, _⟩ => nomatch shape⟩
  | .index _ :: _ => exact ⟨nofun, fun ⟨⟨_, _, shape⟩, _⟩ => nomatch shape⟩
  | .name first :: later =>
    dsimp only
    split
    · next empty => exact ⟨nofun, fun sound => absurd empty sound.named⟩
    · next named => exact ⟨fun _ => ⟨⟨first, later, rfl⟩, named⟩, fun _ => rfl⟩

namespace Condition

/-- The attribute that a test is about. -/
def path? : Condition → Option Path
  | .compare _ p _ | .between p _ _ | .isIn p _ | .test _ p _ | .size _ p _ => some p
  | _ => none

/-- A test is about an attribute on a sound path, and a membership test has candidates. -/
structure IsSoundTest (c : Condition) : Prop where
  candidates : ∀ p, c ≠ .isIn p []
  path : ∀ p, c.path? = some p → p.IsSound

/-- What is wrong with a test. That there are no candidates comes before its path. -/
def fault? : Condition → Option ExpressionFault
  | .isIn p [] => some (.noCandidates p)
  | c => c.path?.bind Path.fault?

theorem fault?_eq_none_iff {c : Condition} : c.fault? = none ↔ c.IsSoundTest := by
  unfold fault?
  split
  · next p => exact ⟨nofun, fun sound => absurd rfl (sound.candidates p)⟩
  · next others =>
    rw [Option.bind_eq_none_iff]
    constructor
    · intro none
      exact ⟨others, fun p about => Path.fault?_eq_none_iff.1 (none p about)⟩
    · intro sound p about
      exact Path.fault?_eq_none_iff.2 (sound.path p about)

theorem leavesList_eq_flatMap (cs : List Condition) : leavesList cs = cs.flatMap leaves := by
  induction cs with
  | nil => rfl
  | cons c rest ih => rw [leavesList, ih, List.flatMap_cons]

end Condition

namespace ExpressionSet

/-- All tests of a set: those on the key, those of a write, those on the items to return. -/
def tests (e : ExpressionSet) : List Condition :=
  (e.keyConditions ++ e.conditions ++ e.filters).flatMap Condition.leaves

/-- All paths of a set are sound, at whatever depth, but those of actions that change nothing. -/
structure IsSound (e : ExpressionSet) : Prop where
  projection : ∀ p ∈ e.projection, p.IsSound
  tests : ∀ c ∈ e.tests, c.IsSoundTest
  updates : ∀ a ∈ e.updates, a.survives = true → a.path.IsSound

/-- The faults of a set in the order in which they count: the projection, the tests, and the
actions clause after clause. -/
def faults (e : ExpressionSet) : List ExpressionFault :=
  e.projection.filterMap Path.fault? ++ e.tests.filterMap Condition.fault? ++
    (UpdateAction.grouped e.updates).filterMap fun a => a.path.fault?

/-- A set is sound if it has no faults. -/
theorem faults_eq_nil_iff {e : ExpressionSet} : e.faults = [] ↔ e.IsSound := by
  have actions : (∀ a ∈ UpdateAction.grouped e.updates, a.path.fault? = none) ↔
      ∀ a ∈ e.updates, a.survives = true → a.path.IsSound := by
    simp only [(UpdateAction.grouped_perm e.updates).mem_iff, List.mem_filter, and_imp,
      Path.fault?_eq_none_iff]
  rw [faults, List.append_eq_nil_iff, List.append_eq_nil_iff, List.filterMap_eq_nil_iff,
    List.filterMap_eq_nil_iff, List.filterMap_eq_nil_iff, actions]
  simp only [Path.fault?_eq_none_iff, Condition.fault?_eq_none_iff]
  exact ⟨fun ⟨⟨projection, tests⟩, updates⟩ => ⟨projection, tests, updates⟩,
    fun ⟨projection, tests, updates⟩ => ⟨⟨projection, tests⟩, updates⟩⟩

end ExpressionSet

/-! ### The fault that a rendering meets -/

theorem findSome?_cons_eq_or {α β : Type} (f : α → Option β) (a : α) (l : List α) :
    (a :: l).findSome? f = (f a).or (l.findSome? f) := by
  rw [List.findSome?_cons]
  cases f a <;> rfl

/-- What is found first is found where it stands first. -/
theorem findSome?_eraseDups {α β : Type} [BEq α] [LawfulBEq α] (f : α → Option β) (l : List α) :
    l.eraseDups.findSome? f = l.findSome? f := by
  induction l using List.reverseRecOn with
  | nil => rfl
  | append_singleton l a ih =>
    rw [List.eraseDups_append, List.findSome?_append, List.findSome?_append, ih]
    by_cases again : a ∈ l
    · -- what stands there already was not found there, or something was before it
      have dropped : [a].removeAll l = [] := by simp [List.removeAll, again]
      rw [dropped]
      cases found : l.findSome? f with
      | some b => rfl
      | none => simp [List.findSome?_eq_none_iff.1 found a again]
    · have kept : [a].removeAll l = [a] := by simp [List.removeAll, again]
      rw [kept]
      simp [List.eraseDups_cons]

section Meets
variable {σ α β : Type} {m : ExceptT ExpressionFault (StateM σ) α}
  {k : α → ExceptT ExpressionFault (StateM σ) β} {f g : Option ExpressionFault}

/-- From whatever state, something ends in this fault, or in none. -/
def Meets (m : ExceptT ExpressionFault (StateM σ) α) (fault : Option ExpressionFault) : Prop :=
  ∀ s, error? (m.run.run s).1 = fault

namespace Meets

theorem pure (a : α) : Meets (σ := σ) (Pure.pure a) none := fun _ => rfl

theorem throw (fault : ExpressionFault) :
    Meets (σ := σ) (α := α) (MonadExcept.throw fault) (some fault) := fun _ => rfl

/-- Of two steps, the first fault counts. -/
theorem bind (hm : Meets m f) (hk : ∀ a, Meets (k a) g) : Meets (m >>= k) (f.or g) := by
  intro s
  have first := hm s
  rw [ExceptT.run_bind, StateT.run_bind]
  rcases run : m.run.run s with ⟨result, between⟩
  rw [run] at first
  cases result with
  | error fault =>
    subst first
    rfl
  | ok a =>
    subst first
    exact hk a between

/-- Steps after which nothing can go wrong. -/
theorem andThen (hm : Meets m f) (hk : ∀ a, Meets (k a) none) : Meets (m >>= k) f := by
  have both := hm.bind hk
  rwa [Option.or_none] at both

theorem ite {c : Prop} [Decidable c] {m' : ExceptT ExpressionFault (StateM σ) α}
    (h : c → Meets m f) (h' : ¬c → Meets m' f) : Meets (if c then m else m') f := by
  split
  · next holds => exact h holds
  · next fails => exact h' fails

/-- A check comes before what it guards. -/
theorem guarded {c : Prop} [Decidable c] {fault : ExpressionFault}
    {next : PUnit → ExceptT ExpressionFault (StateM σ) α} (checked : c → f = some fault)
    (h : ¬c → Meets (next ⟨⟩) f) :
    Meets (if c then MonadExcept.throw fault >>= next else next ⟨⟩) f := by
  refine .ite (fun holds => ?_) h
  rw [checked holds]
  exact fun _ => rfl

end Meets

end Meets

namespace Emit
variable {f : Option ExpressionFault}

theorem meets_name (text : String) : Meets (name text) none := fun _ => rfl

theorem meets_value (v : AttributeValue) : Meets (value v) none := fun _ => rfl

theorem meets_values (vs : List AttributeValue) : Meets (values vs) none := by
  induction vs with
  | nil => exact .pure _
  | cons v rest ih => exact (meets_value v).andThen fun _ => ih.andThen fun _ => .pure _

/-- An expression of its own fails as its rendering does. -/
theorem error?_fragment {render : Emit String} (h : Meets render f) (s : Scope) :
    error? (fragment render s).1 = f :=
  (error?_map _ _).trans (h ⟨s, {}⟩)

theorem error?_fragment? {render : Emit (Option String)} (h : Meets render f) (s : Scope) :
    error? (fragment? render s).1 = f :=
  (error?_map _ _).trans (h ⟨s, {}⟩)

end Emit

/-! ### Paths -/

namespace Path

theorem empty_mem_cons_iff {text : String} (named : ¬text.isEmpty = true) (later : List Segment) :
    (.name "" ∈ .name text :: later) ↔ .name "" ∈ later := by
  have differs : "" ≠ text := fun empty => named (String.isEmpty_iff.2 empty.symm)
  rw [List.mem_cons, Segment.name.injEq]
  exact or_iff_right differs

theorem meets_emitLater (whole : Path) (later : List Segment) :
    Meets (emitLater whole later)
      (if .name "" ∈ later then some (.invalidPath whole .emptyName) else none) := by
  induction later with
  | nil => exact .pure _
  | cons segment rest ih =>
    cases segment with
    | name text =>
      unfold emitLater
      dsimp only
      refine .guarded (fun empty => ?_) fun named => ?_
      · rw [String.isEmpty_iff.1 empty]
        exact if_pos List.mem_cons_self
      · simp only [empty_mem_cons_iff named]
        exact (Emit.meets_name text).bind fun token => ih.andThen fun more => .pure _
    | index n =>
      have same : (.name "" ∈ Segment.index n :: rest) ↔ .name "" ∈ rest := by simp
      simp only [same]
      exact ih.andThen fun more => .pure _

/-- The rendering of a path meets what is wrong with the path. -/
theorem meets_emit (p : Path) : Meets p.emit p.fault? := by
  obtain ⟨segments⟩ := p
  unfold emit fault?
  match segments with
  | [] => exact .throw _
  | .index _ :: _ => exact .throw _
  | .name first :: later =>
    dsimp only
    refine .guarded (fun empty => ?_) fun named => ?_
    · rw [String.isEmpty_iff.1 empty]
      exact if_pos List.mem_cons_self
    · simp only [empty_mem_cons_iff named]
      refine (Emit.meets_name first).bind fun token => ?_
      exact (meets_emitLater _ later).andThen fun more => .pure _

theorem meets_emitAll (ps : List Path) : Meets (emitAll ps) (ps.findSome? fault?) := by
  induction ps with
  | nil => exact .pure _
  | cons p rest ih =>
    rw [findSome?_cons_eq_or]
    exact p.meets_emit.bind fun text => ih.andThen fun texts => .pure _

/-- A path that stands in a projection twice is at fault where it stands first. -/
theorem meets_compileAll (ps : List Path) :
    Meets (ExceptT.mk (compileAll ps)) (ps.findSome? fault?) := by
  intro s
  show error? (compileAll ps s).1 = _
  rw [← findSome?_eraseDups]
  unfold compileAll
  split
  · next none => rw [none]; rfl
  · exact Emit.error?_fragment? ((meets_emitAll _).andThen fun texts => .pure _) s

end Path

/-! ### Conditions -/

namespace Condition

theorem meets_emit_leaf {c : Condition} (single : c.isComposite = false) :
    Meets c.emit (c.leaves.findSome? fault?) := by
  have own : c.leaves.findSome? fault? = c.fault? := by cases c <;> simp_all [leaves, isComposite]
  rw [own]
  cases c with
  | compare op p v | size op p v =>
    exact p.meets_emit.andThen fun pt => (Emit.meets_value v).andThen fun vt => .pure _
  | between p low high =>
    refine p.meets_emit.andThen fun pt => (Emit.meets_value low).andThen fun lt => ?_
    exact (Emit.meets_value high).andThen fun ht => .pure _
  | isIn p candidates =>
    unfold emit
    dsimp only
    refine .guarded (fun empty => ?_) fun some => ?_
    · rw [List.isEmpty_iff.1 empty]
      rfl
    · cases candidates with
      | nil => exact absurd rfl some
      | cons first others =>
        exact p.meets_emit.andThen fun pt => (Emit.meets_values _).andThen fun vts => .pure _
  | test function p arguments =>
    exact p.meets_emit.andThen fun pt => (Emit.meets_values arguments).andThen fun vts => .pure _
  | all | any | not => cases single

mutual
/-- The rendering of a condition meets what is wrong with its tests, from left to right. -/
theorem meets_emit (c : Condition) : Meets c.emit (c.leaves.findSome? fault?) := by
  cases c with
  | all conditions | any conditions =>
    exact (meets_emitOperands conditions).andThen fun texts => .pure _
  | not c => exact (meets_emit c).andThen fun text => .pure _
  | _ => exact meets_emit_leaf rfl

theorem meets_emitOperands (cs : List Condition) :
    Meets (emitOperands cs) ((leavesList cs).findSome? fault?) := by
  cases cs with
  | nil => exact .pure _
  | cons c rest =>
    rw [leavesList, List.findSome?_append]
    refine (meets_emit c).bind fun text => (meets_emitOperands rest).andThen fun texts => ?_
    exact .pure _
end

/-- Pruning takes out no faults. -/
theorem meets_compileAll (cs : List Condition) :
    Meets (ExceptT.mk (compileAll cs)) ((cs.flatMap leaves).findSome? fault?) := by
  intro s
  show error? ((Condition.all cs).compile s).1 = _
  have tests := leaves_prune (.all cs)
  rw [leaves, leavesList_eq_flatMap] at tests
  rw [← tests]
  unfold compile
  cases (Condition.all cs).prune with
  | none => rfl
  | some kept => exact (error?_map _ _).trans (Emit.error?_fragment kept.meets_emit s)

end Condition

/-! ### Updates -/

namespace UpdateAction

theorem meets_emitStep (p : Path) (sign : String) (delta : AttributeValue) :
    Meets (emitStep p sign delta) p.fault? := by
  refine p.meets_emit.andThen fun pt => (Emit.meets_value _).andThen fun zt => ?_
  exact (Emit.meets_value delta).andThen fun dt => .pure _

/-- An action that changes nothing meets no fault, whatever its path. -/
theorem meets_emit (a : UpdateAction) :
    Meets a.emit (if a.survives then a.path.fault? else none) := by
  cases a with
  | set p v | setIfMissing p v =>
    exact p.meets_emit.andThen fun pt => (Emit.meets_value v).andThen fun vt => .pure _
  | increment p delta | decrement p delta =>
    exact (meets_emitStep p _ delta).andThen fun text => .pure _
  | append p items | prepend p items =>
    unfold emit
    dsimp only
    refine .ite (fun empty => ?_) fun some => ?_
    · rw [survives, empty]
      exact .pure _
    · rw [survives, Bool.eq_false_iff.2 some]
      refine p.meets_emit.andThen fun pt => (Emit.meets_value _).andThen fun first => ?_
      exact (Emit.meets_value _).andThen fun second => .pure _
  | add p v | deleteFrom p v =>
    unfold emit
    dsimp only
    refine .ite (fun empty => ?_) fun some => ?_
    · rw [survives, empty]
      exact .pure _
    · rw [survives, Bool.eq_false_iff.2 some]
      exact p.meets_emit.andThen fun pt => (Emit.meets_value v).andThen fun vt => .pure _
  | remove p => exact p.meets_emit.andThen fun pt => .pure _

theorem meets_emitAll (actions : List UpdateAction) :
    Meets (emitAll actions) ((actions.filter survives).findSome? fun a => a.path.fault?) := by
  induction actions with
  | nil => exact .pure _
  | cons a rest ih =>
    have here := a.meets_emit
    have both : ((a :: rest).filter survives).findSome? (fun a => a.path.fault?) =
        (if a.survives then a.path.fault? else none).or
          ((rest.filter survives).findSome? fun a => a.path.fault?) := by
      cases moves : a.survives with
      | false => rw [List.filter_cons_of_neg (by simp [moves])]; rfl
      | true => rw [List.filter_cons_of_pos moves, findSome?_cons_eq_or]; rfl
    rw [both]
    refine here.bind fun text => ?_
    cases text with
    | none => exact ih
    | some text => exact ih.andThen fun texts => .pure _

theorem meets_emitClauses (actions : List UpdateAction) (cs : List Clause) :
    Meets (emitClauses actions cs)
      ((cs.flatMap (members actions)).findSome? fun a => a.path.fault?) := by
  induction cs with
  | nil => exact .pure _
  | cons c rest ih =>
    rw [List.flatMap_cons, List.findSome?_append, ← filter_members]
    refine (meets_emitAll _).bind fun texts => ih.andThen fun later => ?_
    exact .ite (fun _ => .pure _) fun _ => .pure _

theorem meets_compileAll (actions : List UpdateAction) :
    Meets (ExceptT.mk (compileAll actions))
      ((grouped actions).findSome? fun a => a.path.fault?) := by
  intro s
  have meets : Meets (emitUpdate actions) ((grouped actions).findSome? fun a => a.path.fault?) :=
    (meets_emitClauses actions Clause.all).andThen fun texts => .pure _
  exact Emit.error?_fragment? meets s

end UpdateAction

/-! ### Sets of expressions -/

/-- The rendering of a set stops at its first fault. -/
theorem ExpressionSet.error?_compile (e : ExpressionSet) : error? e.compile = e.faults.head? := by
  have meets : Meets e.emit (((e.projection.findSome? Path.fault?).or
      ((e.keyConditions.flatMap Condition.leaves).findSome? Condition.fault? |>.or
        (((e.conditions.flatMap Condition.leaves).findSome? Condition.fault?).or
          (((e.filters.flatMap Condition.leaves).findSome? Condition.fault?).or
            ((UpdateAction.grouped e.updates).findSome? fun a => a.path.fault?)))))) := by
    refine (Path.meets_compileAll _).bind fun projection => ?_
    refine (Condition.meets_compileAll _).bind fun keyCondition => ?_
    refine (Condition.meets_compileAll _).bind fun condition => ?_
    refine (Condition.meets_compileAll _).bind fun filter => ?_
    exact (UpdateAction.meets_compileAll _).andThen fun update => .pure _
  refine (meets {}).trans ?_
  simp only [faults, tests, List.head?_append, List.head?_filterMap, List.flatMap_append,
    List.findSome?_append, Option.or_assoc]

namespace Parameters

/-- Assembling fails where rendering does. -/
theorem error?_assemble (p : Parameters) (e : ExpressionSet) :
    error? (p.assemble e) = (error? e.compile).map .expression := by
  unfold assemble
  cases e.compile <;> rfl

/-- **Assembling fails exactly for an unsound set of expressions, and reports its first fault.**
It succeeds if all paths and tests of the set are sound, at whatever depth, but for the paths of
actions that change nothing. If it fails, the failure is the first fault: of the projection, then
of the tests from left to right, then of the actions clause after clause. Whatever else the
parameters say makes no difference. -/
theorem assemble_reports (p : Parameters) (e : ExpressionSet) :
    ((∃ q, p.assemble e = .ok q) ↔ e.IsSound) ∧
    ∀ failure, p.assemble e = .error failure ↔
      ∃ fault, e.faults.head? = some fault ∧ failure = .expression fault := by
  have met : error? (p.assemble e) = e.faults.head?.map .expression := by
    rw [error?_assemble, e.error?_compile]
  refine ⟨?_, fun failure => ?_⟩
  · rw [← error?_eq_none_iff, met, Option.map_eq_none_iff, List.head?_eq_none_iff]
    exact ExpressionSet.faults_eq_nil_iff
  · rw [← error?_eq_some_iff, met, Option.map_eq_some_iff]
    simp only [eq_comm]

/-- That a membership test has no candidates counts before its path, an assignment before a
removal, and an action that adds nothing not at all. -/
theorem assemble_reports_nested :
    let e : ExpressionSet :=
      { projection := [⟨[.name "a"]⟩]
        filters := [.any [.not (.all [.isIn ⟨[]⟩ []])]]
        updates := [.remove ⟨[.index 0]⟩, .append ⟨[]⟩ [],
          .set ⟨[.name "a", .name ""]⟩ (.number "1")] }
    e.faults = [.noCandidates ⟨[]⟩, .invalidPath ⟨[.name "a", .name ""]⟩ .emptyName,
        .invalidPath ⟨[.index 0]⟩ .leadingIndex] ∧
      assemble { table := "t" } e = .error (.expression (.noCandidates ⟨[]⟩)) := by
  intro e
  have faults : e.faults = [.noCandidates ⟨[]⟩, .invalidPath ⟨[.name "a", .name ""]⟩ .emptyName,
      .invalidPath ⟨[.index 0]⟩ .leadingIndex] := by
    decide +kernel
  refine ⟨faults, ((assemble_reports _ e).2 _).2 ⟨_, ?_, rfl⟩⟩
  rw [faults]
  rfl

end Parameters

end TableClient
