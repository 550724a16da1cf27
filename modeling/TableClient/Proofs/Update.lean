import TableClient.Proofs.Emission
import TableClient.Proofs.Grammar.Update

/-! A compiled update says what it was compiled from.

Actions that change nothing are left out; the others are written clause after clause, each in
its clause in the order given (`grouped`). Read back, the text of a compiled update says these
actions (`compileAll_reads`), and it depends on nothing else: how the clauses were mixed does
not show. -/
namespace TableClient

theorem Clause.mem_all (c : Clause) : c ∈ Clause.all := by
  cases c <;> decide

namespace UpdateAction

/-! ### Which actions are written, and in which order -/

/-- Whether an action changes anything. -/
def survives : UpdateAction → Bool
  | .append _ items | .prepend _ items => !items.isEmpty
  | .add _ v | .deleteFrom _ v => !v.isEmptySet
  | _ => true

/-- The actions of a clause that change something. -/
def members (actions : List UpdateAction) (c : Clause) : List UpdateAction :=
  (actions.filter survives).filter fun a => a.clause = c

theorem filter_members (actions : List UpdateAction) (c : Clause) :
    (actions.filter fun a => a.clause = c).filter survives = members actions c := by
  rw [members, List.filter_filter, List.filter_filter]
  simp only [Bool.and_comm]

/-- The actions that change something, clause after clause. -/
def grouped (actions : List UpdateAction) : List UpdateAction :=
  Clause.all.flatMap (members actions)

theorem clause_of_mem_members {actions : List UpdateAction} {c : Clause} {a : UpdateAction}
    (h : a ∈ members actions c) : a.clause = c := by
  simpa using (List.mem_filter.1 h).2

/-- Within a clause, grouping keeps the order. -/
theorem filter_grouped (actions : List UpdateAction) (c : Clause) :
    (grouped actions).filter (fun a => a.clause = c) = members actions c := by
  have other {d : Clause} (h : d ≠ c) :
      (members actions d).filter (fun a => a.clause = c) = [] :=
    List.filter_eq_nil_iff.2 fun a ha => by simpa [clause_of_mem_members ha] using h
  have own : (members actions c).filter (fun a => a.clause = c) = members actions c :=
    List.filter_eq_self.2 fun a ha => by simpa using clause_of_mem_members ha
  cases c <;> simp [grouped, Clause.all, List.filter_append, own, other]

/-- Grouping loses and repeats nothing that changes something. -/
theorem grouped_perm (actions : List UpdateAction) :
    (grouped actions).Perm (actions.filter survives) := by
  refine List.perm_iff_count.2 fun a => ?_
  calc
    (grouped actions).count a
      = ((grouped actions).filter fun b => b.clause = a.clause).count a :=
        (List.count_filter (by simp)).symm
    _ = (members actions a.clause).count a := by rw [filter_grouped]
    _ = (actions.filter survives).count a := List.count_filter (by simp)

/-- Nothing is left to group when no action changes anything. -/
theorem grouped_eq_nil_iff (actions : List UpdateAction) :
    grouped actions = [] ↔ actions.filter survives = [] := by
  rw [← List.length_eq_zero_iff, (grouped_perm actions).length_eq, List.length_eq_zero_iff]

/-- Grouping puts the clauses in order. -/
theorem grouped_sorted (actions : List UpdateAction) :
    (grouped actions).Pairwise fun a b =>
      Clause.all.idxOf a.clause ≤ Clause.all.idxOf b.clause := by
  have order : Clause.all.Pairwise fun c d => Clause.all.idxOf c ≤ Clause.all.idxOf d := by decide
  rw [grouped, List.pairwise_flatMap]
  constructor
  · intro c _
    refine List.pairwise_of_forall_mem_list fun a ha b hb => ?_
    rw [clause_of_mem_members ha, clause_of_mem_members hb]
  · refine order.imp fun h a ha b hb => ?_
    rwa [clause_of_mem_members ha, clause_of_mem_members hb]

/-! ### What the rendering of an update writes -/

/-- What the rendering of an action comes to: a text, unless the action changes nothing. -/
def IsWritten (σ : Sense) (a : UpdateAction) : Option String → Prop
  | none => a.survives = false
  | some text => a.survives = true ∧ a.path.IsRooted ∧ Spells σ text a.lexemes

section Texts
variable {σ : Sense} {pt vt : String} {p : Path} {v : AttributeValue}

theorem isJoint_assign : IsJoint " = " [.sign ['=']] := ⟨⟨rfl, rfl, rfl⟩, rfl⟩

theorem isJoint_assign_present :
    IsJoint " = if_not_exists(" [.sign ['='], .keyword "if_not_exists", .mark '('] :=
  ⟨⟨rfl, rfl, rfl⟩, rfl⟩

/-- An assignment to an attribute from the same attribute, if it is there. -/
theorem spells_assign_present (path : Spells σ pt p.lexemes) (value : Spells σ vt [.value v]) :
    Spells σ (pt ++ " = if_not_exists(" ++ pt ++ ", " ++ vt ++ ")")
      (p.lexemes ++ [.sign ['=']] ++ (Operand.present p v).lexemes) := by
  have target := path.join isJoint_assign_present path
  simpa [Operand.lexemes] using (target.join isJoint_comma value).close isJoint_close

theorem spells_present (path : Spells σ pt p.lexemes) (value : Spells σ vt [.value v]) :
    Spells σ ("if_not_exists(" ++ pt ++ ", " ++ vt ++ ")") (Operand.present p v).lexemes := by
  have opened : Spells σ ("if_not_exists(" ++ pt)
      ([.keyword "if_not_exists", .mark '('] ++ p.lexemes) := .after ⟨rfl, rfl, rfl⟩ path
  exact (opened.join isJoint_comma value).close isJoint_close

/-- An assignment of the items of two lists. -/
theorem spells_concat {a b : Operand} {at' bt : String} (path : Spells σ pt p.lexemes)
    (first : Spells σ at' a.lexemes) (second : Spells σ bt b.lexemes) :
    Spells σ (pt ++ " = list_append(" ++ at' ++ ", " ++ bt ++ ")")
      (p.lexemes ++ [.sign ['=']] ++ (Source.concat a b).lexemes) := by
  have assign : IsJoint " = list_append(" [.sign ['='], .keyword "list_append", .mark '('] :=
    ⟨⟨rfl, rfl, rfl⟩, rfl⟩
  have target := path.join assign first
  simpa [Source.lexemes] using (target.join isJoint_comma second).close isJoint_close

end Texts

theorem writes_emitStep (p : Path) {sign : String} {step : Lexeme}
    (joint : IsJoint (") " ++ sign ++ " ") [.mark ')', step]) (delta : AttributeValue) :
    Emit.Writes (emitStep p sign delta) fun σ text => p.IsRooted ∧
      Spells σ text (p.lexemes ++ [.sign ['=']] ++
        ((Operand.present p (.number "0")).lexemes ++ [step] ++ [.value delta])) := by
  refine p.writes_emit.bind fun pt => (Emit.writes_value _).bind fun zt => ?_
  refine (Emit.writes_value delta).bind fun dt => .pure ?_
  intro σ value zero target
  obtain ⟨rooted, path⟩ := target
  refine ⟨rooted, ?_⟩
  have target := path.join isJoint_assign_present path
  have whole := (target.join isJoint_comma zero).join joint value
  simpa [Operand.lexemes, String.append_assoc] using whole

/-- What the rendering of an action writes. -/
theorem writes_emit (a : UpdateAction) : Emit.Writes a.emit fun σ text => IsWritten σ a text := by
  cases a with
  | set p v =>
    refine p.writes_emit.bind fun pt => (Emit.writes_value v).bind fun vt => .pure ?_
    intro σ value target
    obtain ⟨rooted, path⟩ := target
    exact ⟨rfl, rooted, path.join isJoint_assign value⟩
  | setIfMissing p v =>
    refine p.writes_emit.bind fun pt => (Emit.writes_value v).bind fun vt => .pure ?_
    intro σ value target
    obtain ⟨rooted, path⟩ := target
    exact ⟨rfl, rooted, spells_assign_present path value⟩
  | increment p delta =>
    have plus : IsJoint (") " ++ "+" ++ " ") [.mark ')', .mark '+'] := ⟨⟨rfl, rfl, rfl⟩, rfl⟩
    refine (writes_emitStep p plus delta).bind fun text => .pure ?_
    intro σ written
    obtain ⟨rooted, spells⟩ := written
    exact ⟨rfl, rooted, spells⟩
  | decrement p delta =>
    have minus : IsJoint (") " ++ "-" ++ " ") [.mark ')', .mark '-'] := ⟨⟨rfl, rfl, rfl⟩, rfl⟩
    refine (writes_emitStep p minus delta).bind fun text => .pure ?_
    intro σ written
    obtain ⟨rooted, spells⟩ := written
    exact ⟨rfl, rooted, spells⟩
  | append p items =>
    unfold emit
    dsimp only
    refine .ite (fun empty => .pure fun σ => by simpa [IsWritten, survives] using empty)
      fun some => ?_
    refine p.writes_emit.bind fun pt => (Emit.writes_value _).bind fun st => ?_
    refine (Emit.writes_value _).bind fun it => .pure ?_
    intro σ added start target
    obtain ⟨rooted, path⟩ := target
    exact ⟨by simpa [survives] using some, rooted,
      spells_concat path (spells_present path start) added⟩
  | prepend p items =>
    unfold emit
    dsimp only
    refine .ite (fun empty => .pure fun σ => by simpa [IsWritten, survives] using empty)
      fun some => ?_
    refine p.writes_emit.bind fun pt => (Emit.writes_value _).bind fun it => ?_
    refine (Emit.writes_value _).bind fun st => .pure ?_
    intro σ start added target
    obtain ⟨rooted, path⟩ := target
    exact ⟨by simpa [survives] using some, rooted,
      spells_concat path added (spells_present path start)⟩
  | add p v | deleteFrom p v =>
    unfold emit
    dsimp only
    refine .ite (fun empty => .pure fun σ => by simpa [IsWritten, survives] using empty)
      fun some => ?_
    refine p.writes_emit.bind fun pt => (Emit.writes_value v).bind fun vt => .pure ?_
    intro σ value target
    obtain ⟨rooted, path⟩ := target
    have blank : IsJoint " " [] := ⟨⟨rfl, rfl, rfl⟩, rfl⟩
    have spells := path.join blank value
    rw [List.append_nil] at spells
    exact ⟨by simpa [survives] using some, rooted, spells⟩
  | remove p =>
    refine p.writes_emit.bind fun pt => .pure ?_
    intro σ target
    obtain ⟨rooted, path⟩ := target
    exact ⟨rfl, rooted, path⟩

/-- What the rendering of several actions writes. -/
theorem writes_emitAll (actions : List UpdateAction) :
    Emit.Writes (emitAll actions) fun σ texts =>
      (∀ a ∈ actions.filter survives, a.path.IsRooted) ∧
        List.Forall₂ (Spells σ) texts ((actions.filter survives).map lexemes) := by
  induction actions with
  | nil => exact .pure fun σ => ⟨by simp, .nil⟩
  | cons a rest ih =>
    refine a.writes_emit.bind fun text => ?_
    cases text with
    | none =>
      refine ih.mono fun σ texts others still => ?_
      rwa [List.filter_cons_of_neg (Bool.eq_false_iff.1 still)]
    | some text =>
      refine ih.bind fun texts => .pure ?_
      intro σ later here
      obtain ⟨rooted, others⟩ := later
      obtain ⟨moves, first, spells⟩ := here
      rw [List.filter_cons_of_pos moves]
      exact ⟨List.forall_mem_cons.2 ⟨first, rooted⟩, .cons spells others⟩

/-- What the rendering of clauses writes: those that have an action. -/
theorem writes_emitClauses (actions : List UpdateAction) (cs : List Clause) :
    Emit.Writes (emitClauses actions cs) fun σ texts =>
      (∀ c ∈ cs, ∀ a ∈ members actions c, a.path.IsRooted) ∧
      (texts = [] ↔ ∀ c ∈ cs, members actions c = []) ∧
      ∃ lss, List.Forall₂ (Spells σ) texts lss ∧
        lss.flatten = cs.flatMap fun c => c.lexemes (members actions c) := by
  induction cs with
  | nil => exact .pure fun σ => ⟨by simp, by simp, [], .nil, rfl⟩
  | cons c rest ih =>
    refine (writes_emitAll _).bind fun texts => ih.bind fun later => ?_
    refine .ite (fun empty => .pure ?_) fun some => .pure ?_
    · intro σ later acts
      obtain ⟨rooted, nothing, lss, spells, flat⟩ := later
      obtain ⟨-, here⟩ := acts
      rw [filter_members, List.isEmpty_iff.1 empty, List.forall₂_nil_left_iff,
        List.map_eq_nil_iff] at here
      refine ⟨List.forall_mem_cons.2 ⟨by simp [here], rooted⟩, ?_, lss, spells, ?_⟩
      · rw [nothing, List.forall_mem_cons]
        exact (and_iff_right here).symm
      · rw [flat, List.flatMap_cons, here]
        rfl
    · intro σ later acts
      obtain ⟨rooted, nothing, lss, spells, flat⟩ := later
      obtain ⟨moves, here⟩ := acts
      rw [filter_members] at moves here
      have members : members actions c ≠ [] := by
        intro none
        rw [none] at here
        cases here
        exact some rfl
      refine ⟨List.forall_mem_cons.2 ⟨moves, rooted⟩, ?_,
        c.lexemes (UpdateAction.members actions c) :: lss, .cons ?_ spells, ?_⟩
      · simp [members]
      · have opens : IsLiteral (c.keyword ++ " ") [.keyword c.keyword] := by
          cases c <;> exact ⟨rfl, rfl, rfl⟩
        have := Spells.after opens (Spells.intercalate isJoint_comma here)
        simpa [Clause.lexemes, members] using this
      · rw [List.flatten_cons, flat, List.flatMap_cons]

/-- What the rendering of an update writes: nothing if no action changes anything. -/
theorem writes_emitUpdate (actions : List UpdateAction) :
    Emit.Writes (emitUpdate actions) fun σ text =>
      (text = none ↔ actions.filter survives = []) ∧
      ∀ written, text = some written →
        (∀ c, ∀ a ∈ members actions c, a.clause = c ∧ a.path.IsRooted) ∧
        Spells σ written (Clause.all.flatMap fun c => c.lexemes (members actions c)) := by
  refine (writes_emitClauses actions Clause.all).bind fun texts => .pure ?_
  intro σ later
  obtain ⟨rooted, nothing, lss, spells, flat⟩ := later
  rw [← grouped_eq_nil_iff, grouped, List.flatMap_eq_nil_iff, ← nothing]
  constructor
  · cases texts <;> simp
  · intro written found
    have text : written = String.intercalate " " texts := by
      cases texts <;> simp_all
    have read := Spells.intercalate_blank spells
    rw [flat, ← text] at read
    exact ⟨fun c a ha => ⟨clause_of_mem_members ha, rooted c c.mem_all a ha⟩, read⟩

/-! ### What the rendering of an update depends on -/

/-- An action that changes nothing is written as nothing. -/
theorem emit_of_not_survives {a : UpdateAction} (h : a.survives = false) :
    a.emit = pure none := by
  cases a with
  | append | prepend | add | deleteFrom =>
    unfold emit
    exact if_pos (by simpa [survives] using h)
  | _ => cases h

/-- Actions that change nothing do not show. -/
theorem emitAll_filter (actions : List UpdateAction) :
    emitAll (actions.filter survives) = emitAll actions := by
  induction actions with
  | nil => rfl
  | cons a rest ih =>
    cases moves : a.survives with
    | false =>
      rw [List.filter_cons_of_neg (Bool.eq_false_iff.1 moves), ih, emitAll,
        emit_of_not_survives moves, pure_bind]
    | true => rw [List.filter_cons_of_pos moves, emitAll, emitAll, ih]

/-- The clauses depend on the members of each alone. -/
theorem emitClauses_congr {actions others : List UpdateAction} {cs : List Clause}
    (h : ∀ c ∈ cs, members others c = members actions c) :
    emitClauses others cs = emitClauses actions cs := by
  induction cs with
  | nil => rfl
  | cons c rest ih =>
    have here : emitAll (others.filter fun a => a.clause = c) =
        emitAll (actions.filter fun a => a.clause = c) := by
      rw [← emitAll_filter, filter_members, h c List.mem_cons_self, ← filter_members,
        emitAll_filter]
    rw [emitClauses, emitClauses, here, ih fun d hd => h d (List.mem_cons_of_mem c hd)]

/-! ### Compiling -/

/-- What a compiled update is to say: nothing if no action changes anything. -/
def meaning (actions : List UpdateAction) : Option (List UpdateAction) :=
  if actions.filter survives = [] then none else some (grouped actions)

/-- The grouped actions are what the text of a compiled update says. -/
theorem compileAll_tells {actions : List UpdateAction} {s s' : Scope} {f : Option Fragment}
    (h : compileAll actions s = (.ok f, s')) :
    (∃ after, s.Draws (Fragment.made f) after) ∧
      Option.Rel (fun f said => f.Tells Grammar.update said) f (meaning actions) := by
  obtain ⟨b, text, draws, rfl, holds⟩ := (writes_emitUpdate actions).fragment? h
  have own := (holds _ draws.proper.honors).1
  unfold meaning
  cases text with
  | none =>
    rw [if_pos (own.1 rfl)]
    exact ⟨⟨s, .refl s⟩, .none⟩
  | some written =>
    rw [if_neg fun nothing => by cases own.2 nothing]
    refine ⟨⟨_, draws⟩, .some fun σ honors => ?_⟩
    obtain ⟨rooted, spells⟩ := (holds σ honors).2 written rfl
    exact ⟨_, spells, (Grammar.reads_update (members actions) rooted).whole rfl⟩

/-- **A compiled update says which actions change something**, clause after clause: these, each
once, and in each clause in the order given. Nothing else shows in the update, nor in the tokens
drawn for it. -/
theorem compileAll_reads {actions : List UpdateAction} {s s' : Scope} {f : Option Fragment}
    (h : compileAll actions s = (.ok f, s')) :
    (f = none ↔ actions.filter survives = []) ∧
    (∀ fragment, f = some fragment →
      fragment.bindings.sense.update? fragment.text = some (grouped actions)) ∧
    (grouped actions).Perm (actions.filter survives) ∧
    ((grouped actions).Pairwise fun a b =>
      Clause.all.idxOf a.clause ≤ Clause.all.idxOf b.clause) ∧
    (∀ c, (grouped actions).filter (fun a => a.clause = c) =
      (actions.filter survives).filter fun a => a.clause = c) ∧
    ∀ others : List UpdateAction,
      (∀ c, (others.filter survives).filter (fun a => a.clause = c) =
        (actions.filter survives).filter fun a => a.clause = c) →
      compileAll others s = (.ok f, s') := by
  obtain ⟨⟨after, draws⟩, tells⟩ := compileAll_tells h
  unfold meaning at tells
  refine ⟨?_, ?_, grouped_perm actions, grouped_sorted actions, filter_grouped actions, ?_⟩
  · split at tells
    · next none => cases tells; simp [none]
    · next some => cases tells; simp [some]
  · intro fragment same
    subst same
    split at tells
    · cases tells
    · cases tells with
      | some tells => exact tells.read draws.proper
  · intro others same
    rw [← h, compileAll, compileAll, emitUpdate, emitUpdate,
      emitClauses_congr fun c _ => same c]

/-- The clauses of these actions are mixed, and one of them adds nothing to a list. -/
theorem compileAll_reads_mixed :
    ∃ f : Fragment,
      compileAll [.remove ⟨[.name "c"]⟩, .append ⟨[.name "b"]⟩ [.number "1"],
        .prepend ⟨[.name "d"]⟩ [], .increment ⟨[.name "a"]⟩ (.number "2")] {} =
        (.ok (some f), ⟨3, 4⟩) ∧
      f.text = "SET #attr0 = list_append(if_not_exists(#attr0, :val0), :val1), " ++
        "#attr1 = if_not_exists(#attr1, :val2) + :val3 REMOVE #attr2" ∧
      f.bindings.sense.update? f.text = some [.append ⟨[.name "b"]⟩ [.number "1"],
        .increment ⟨[.name "a"]⟩ (.number "2"), .remove ⟨[.name "c"]⟩] ∧
      compileAll [.append ⟨[.name "b"]⟩ [.number "1"], .increment ⟨[.name "a"]⟩ (.number "2"),
        .remove ⟨[.name "c"]⟩] {} = (.ok (some f), ⟨3, 4⟩) := by
  have compiled : compileAll [.remove ⟨[.name "c"]⟩, .append ⟨[.name "b"]⟩ [.number "1"],
      .prepend ⟨[.name "d"]⟩ [], .increment ⟨[.name "a"]⟩ (.number "2")] {} =
      (.ok (some ⟨"SET #attr0 = list_append(if_not_exists(#attr0, :val0), :val1), " ++
        "#attr1 = if_not_exists(#attr1, :val2) + :val3 REMOVE #attr2",
        ⟨[("#attr0", "b"), ("#attr1", "a"), ("#attr2", "c")],
          [(":val0", .list []), (":val1", .list [.number "1"]), (":val2", .number "0"),
            (":val3", .number "2")]⟩⟩), ⟨3, 4⟩) := by
    decide +kernel
  obtain ⟨-, said, -, -, -, alone⟩ := compileAll_reads compiled
  exact ⟨_, compiled, rfl, said _ rfl, alone _ fun c => by cases c <;> rfl⟩

end UpdateAction

end TableClient
