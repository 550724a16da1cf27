import TableClient.Expression.Update
import TableClient.Proofs.Grammar.Path

/-! How updates are written.

An update has each of its clauses at most once, in order, and a comma between each two actions
of a clause. An action of the first clause assigns to an attribute; which action it is shows
in what it assigns: a number that counts from zero starts from a zero that is written out, a
list from an empty list. -/
namespace TableClient

/-- What an assignment takes a value from. -/
inductive Operand where
  | path (p : Path)
  | value (v : AttributeValue)
  /-- The value of an attribute that is there, or else another. -/
  | present (p : Path) (otherwise : AttributeValue)

/-- What an assignment assigns. -/
inductive Source where
  | one (a : Operand)
  | sum (a b : Operand)
  | difference (a b : Operand)
  /-- The items of two lists. -/
  | concat (a b : Operand)

/-- The action that an assignment is. -/
def UpdateAction.ofAssignment? (p : Path) : Source → Option UpdateAction
  | .one (.value v) => some (.set p v)
  | .one (.present q v) => if q = p then some (.setIfMissing p v) else none
  | .sum (.present q start) (.value delta) =>
    if q = p ∧ start = .number "0" then some (.increment p delta) else none
  | .difference (.present q start) (.value delta) =>
    if q = p ∧ start = .number "0" then some (.decrement p delta) else none
  | .concat (.present q start) (.value (.list items)) =>
    if q = p ∧ start = .list [] then some (.append p items) else none
  | .concat (.value (.list items)) (.present q start) =>
    if q = p ∧ start = .list [] then some (.prepend p items) else none
  | _ => none

namespace Grammar
open Reader

/-- An attribute that may be missing. -/
def present : Reader Operand := do
  expect (.keyword "if_not_exists")
  expect (.mark '(')
  let p ← path
  expect (.mark ',')
  let otherwise ← value
  expect (.mark ')')
  return .present p otherwise

/-- What an assignment takes a value from. -/
def taken : Reader Operand := present <|> .value <$> value <|> .path <$> path

/-- Two lists in one. -/
def concat : Reader Source := do
  expect (.keyword "list_append")
  expect (.mark '(')
  let a ← taken
  expect (.mark ',')
  let b ← taken
  expect (.mark ')')
  return .concat a b

/-- What an assignment assigns. -/
def source : Reader Source :=
  concat <|> do
    let a ← taken
    (do expect (.mark '+'); return .sum a (← taken))
      <|> (do expect (.mark '-'); return .difference a (← taken))
      <|> return .one a

/-- An action of a clause. -/
def action : Clause → Reader UpdateAction
  | .set => do
    let p ← path
    expect (.sign ['='])
    check (UpdateAction.ofAssignment? p (← source))
  | .add => do
    let p ← path
    return .add p (← value)
  | .remove => .remove <$> path
  | .delete => do
    let p ← path
    return .deleteFrom p (← value)

/-- The actions of a clause, none if it is not there. -/
def clause (c : Clause) : Reader (List UpdateAction) :=
  (do expect (.keyword c.keyword); separated (.mark ',') (action c)) <|> return []

/-- The actions of some clauses. -/
def clauses : List Clause → Reader (List UpdateAction)
  | [] => return []
  | c :: later => do
    let first ← clause c
    let others ← clauses later
    return first ++ others

/-- An update. -/
def update : Reader (List UpdateAction) := clauses Clause.all

end Grammar

/-- What a text says as an update, with what its tokens stand for. -/
def Sense.update? (σ : Sense) (text : String) : Option (List UpdateAction) :=
  Grammar.update.whole (σ.lexemes text.toList)

/-! ### The lexemes of an update -/

namespace Operand

/-- The lexemes of an operand. -/
def lexemes : Operand → List Lexeme
  | .path p => p.lexemes
  | .value v => [.value v]
  | .present p otherwise =>
    [.keyword "if_not_exists", .mark '('] ++ p.lexemes ++ [.mark ','] ++ [.value otherwise] ++
      [.mark ')']

/-- The paths of the operand begin with names. -/
def IsRooted : Operand → Prop
  | .path p | .present p _ => p.IsRooted
  | .value _ => True

end Operand

namespace Source

/-- The lexemes of what is assigned. -/
def lexemes : Source → List Lexeme
  | .one a => a.lexemes
  | .sum a b => a.lexemes ++ [.mark '+'] ++ b.lexemes
  | .difference a b => a.lexemes ++ [.mark '-'] ++ b.lexemes
  | .concat a b =>
    [.keyword "list_append", .mark '('] ++ a.lexemes ++ [.mark ','] ++ b.lexemes ++ [.mark ')']

/-- The operands are rooted. -/
def IsRooted : Source → Prop
  | .one a => a.IsRooted
  | .sum a b | .difference a b | .concat a b => a.IsRooted ∧ b.IsRooted

end Source

namespace UpdateAction

/-- The attribute that an action changes. -/
def path : UpdateAction → Path
  | .set p _ | .setIfMissing p _ | .increment p _ | .decrement p _ | .append p _ | .prepend p _
  | .add p _ | .remove p | .deleteFrom p _ => p

/-- What an action assigns, if it is an assignment. -/
def source? : UpdateAction → Option Source
  | .set _ v => some (.one (.value v))
  | .setIfMissing p v => some (.one (.present p v))
  | .increment p delta => some (.sum (.present p (.number "0")) (.value delta))
  | .decrement p delta => some (.difference (.present p (.number "0")) (.value delta))
  | .append p items => some (.concat (.present p (.list [])) (.value (.list items)))
  | .prepend p items => some (.concat (.value (.list items)) (.present p (.list [])))
  | .add .. | .remove _ | .deleteFrom .. => none

/-- An assignment shows which action it is. -/
theorem ofAssignment?_source? {a : UpdateAction} {s : Source} (h : a.source? = some s) :
    ofAssignment? a.path s = some a := by
  cases a <;> cases h <;> simp [ofAssignment?, path]

theorem isRooted_source? (a : UpdateAction) {s : Source} (rooted : a.path.IsRooted)
    (h : a.source? = some s) : s.IsRooted := by
  cases a <;> cases h <;> trivial

/-- The lexemes of an action. -/
def lexemes : UpdateAction → List Lexeme
  | .add p v | .deleteFrom p v => p.lexemes ++ [.value v]
  | .remove p => p.lexemes
  | a => a.path.lexemes ++ [.sign ['=']] ++ (a.source?.elim [] Source.lexemes)

end UpdateAction

/-- The lexemes of a clause. -/
def Clause.lexemes (c : Clause) (actions : List UpdateAction) : List Lexeme :=
  if actions.isEmpty then []
  else [.keyword c.keyword] ++ Lexeme.joined (.mark ',') (actions.map UpdateAction.lexemes)

/-! ### Values -/

/-- An operand with its value changed. -/
def Operand.mapValues (f : AttributeValue → AttributeValue) : Operand → Operand
  | .path p => .path p
  | .value v => .value (f v)
  | .present p otherwise => .present p (f otherwise)

/-- What is assigned, with its values changed. -/
def Source.mapValues (f : AttributeValue → AttributeValue) : Source → Source
  | .one a => .one (a.mapValues f)
  | .sum a b => .sum (a.mapValues f) (b.mapValues f)
  | .difference a b => .difference (a.mapValues f) (b.mapValues f)
  | .concat a b => .concat (a.mapValues f) (b.mapValues f)

/-- An action with its values changed. -/
def UpdateAction.mapValues (f : AttributeValue → AttributeValue) : UpdateAction → UpdateAction
  | .set p v => .set p (f v)
  | .setIfMissing p v => .setIfMissing p (f v)
  | .increment p delta => .increment p (f delta)
  | .decrement p delta => .decrement p (f delta)
  | .append p items => .append p (items.map f)
  | .prepend p items => .prepend p (items.map f)
  | .add p v => .add p (f v)
  | .remove p => .remove p
  | .deleteFrom p members => .deleteFrom p (f members)

namespace AttributeValue

theorem normalizedList_eq_map (items : List AttributeValue) :
    normalizedList items = items.map normalized := by
  induction items with
  | nil => rfl
  | cons item rest ih => rw [normalizedList, ih, List.map_cons]

theorem normalized_list (items : List AttributeValue) :
    normalized (.list items) = .list (items.map normalized) := by
  rw [normalized, normalizedList_eq_map]

theorem normalized_eq_number {v : AttributeValue} {digits : String} :
    v.normalized = .number digits ↔ v = .number digits := by
  cases v <;> simp [normalized]

theorem normalized_eq_empty {v : AttributeValue} : v.normalized = .list [] ↔ v = .list [] := by
  cases v with
  | list items => rw [normalized_list]; simp
  | _ => simp [normalized]

end AttributeValue

namespace UpdateAction
open AttributeValue

/-- Which action an assignment is does not depend on the members of sets. -/
theorem ofAssignment?_mapValues (p : Path) (s : Source) :
    ofAssignment? p (s.mapValues normalized) =
      (ofAssignment? p s).map (UpdateAction.mapValues normalized) := by
  cases s with
  | one a =>
    cases a with
    | path q => rfl
    | value v => rfl
    | present q otherwise =>
      simp only [Source.mapValues, Operand.mapValues, ofAssignment?]
      split <;> rfl
  | sum a b =>
    cases a <;> cases b <;> try rfl
    simp only [Source.mapValues, Operand.mapValues, ofAssignment?, normalized_eq_number]
    split <;> rfl
  | difference a b =>
    cases a <;> cases b <;> try rfl
    simp only [Source.mapValues, Operand.mapValues, ofAssignment?, normalized_eq_number]
    split <;> rfl
  | concat a b =>
    -- which of the operands is the list of items decides between the two ends
    cases a with
    | path q => rfl
    | value v =>
      cases v with
      | list items =>
        cases b with
        | present q start =>
          simp only [Source.mapValues, Operand.mapValues, ofAssignment?, normalized_list,
            normalized_eq_empty]
          split <;> rfl
        | _ => rfl
      | _ => cases b <;> rfl
    | present q start =>
      cases b with
      | value v =>
        cases v with
        | list items =>
          simp only [Source.mapValues, Operand.mapValues, ofAssignment?, normalized_list,
            normalized_eq_empty]
          split <;> rfl
        | _ => rfl
      | _ => rfl

/-- Actions are the same but for the order and repetition of the members of sets. -/
def SameAs (a b : UpdateAction) : Prop := a.mapValues normalized = b.mapValues normalized

end UpdateAction

/-! ### Reading back -/

namespace Grammar
open Reader

theorem reads_present {p : Path} (rooted : p.IsRooted) (otherwise : AttributeValue) :
    present.Reads anything (Operand.present p otherwise).lexemes
      (.present p otherwise) := by
  intro rest _
  have tested := reads_path rooted (.mark ',' :: .value otherwise :: .mark ')' :: rest)
    (by simp [PathEnds])
  simp [present, Operand.lexemes, tested, value]

theorem reads_taken {a : Operand} (rooted : a.IsRooted) : taken.Reads PathEnds a.lexemes a := by
  intro rest hr
  cases a with
  | path p =>
    have read := reads_path rooted rest hr
    obtain ⟨⟨segments⟩, first, later, rfl⟩ := p, rooted
    simp only [Path.lexemes, List.cons_append] at read
    simp [taken, present, Operand.lexemes, Path.lexemes, Lexeme.keyword, value, read]
  | value v => simp [taken, present, Operand.lexemes, Lexeme.keyword, value]
  | present p otherwise =>
    rw [taken, run_orElse, reads_present rooted otherwise rest trivial]
    rfl

/-- Nothing that goes on with what is assigned. -/
def SourceEnds (rest : List Lexeme) : Prop :=
  PathEnds rest ∧ rest.head? ≠ some (.mark '+') ∧ rest.head? ≠ some (.mark '-')

/-- What begins like an operand is not the name of a function on lists. -/
theorem concat_lexemes {a : Operand} (rooted : a.IsRooted) (rest : List Lexeme) :
    concat.run (a.lexemes ++ rest) = none := by
  cases a with
  | path p =>
    obtain ⟨⟨segments⟩, first, later, rfl⟩ := p, rooted
    simp [concat, Operand.lexemes, Path.lexemes, Lexeme.keyword]
  | value v => simp [concat, Operand.lexemes, Lexeme.keyword]
  | present p otherwise => simp [concat, Operand.lexemes, Lexeme.keyword]

/-- What is assigned is read back. -/
theorem reads_source {s : Source} (rooted : s.IsRooted) :
    source.Reads SourceEnds s.lexemes s := by
  intro rest hr
  cases s with
  | one a =>
    have read := reads_taken rooted rest hr.1
    cases rest with
    | nil =>
      rw [List.append_nil] at read
      have other := concat_lexemes rooted []
      rw [List.append_nil] at other
      simp [source, Source.lexemes, other, read]
    | cons l rest =>
      obtain ⟨-, plus, minus⟩ : _ ∧ l ≠ .mark '+' ∧ l ≠ .mark '-' := by
        simpa [SourceEnds] using hr
      simp [source, Source.lexemes, concat_lexemes rooted, read, plus, minus]
  | sum a b =>
    have first := reads_taken rooted.1 (.mark '+' :: (b.lexemes ++ rest)) (by simp [PathEnds])
    have second := reads_taken rooted.2 rest hr.1
    simp [source, Source.lexemes, concat_lexemes rooted.1, first, second]
  | difference a b =>
    have first := reads_taken rooted.1 (.mark '-' :: (b.lexemes ++ rest)) (by simp [PathEnds])
    have second := reads_taken rooted.2 rest hr.1
    simp [source, Source.lexemes, concat_lexemes rooted.1, first, second]
  | concat a b =>
    have first := reads_taken rooted.1 (.mark ',' :: (b.lexemes ++ .mark ')' :: rest))
      (by simp [PathEnds])
    have second := reads_taken rooted.2 (.mark ')' :: rest) (by simp [PathEnds])
    simp [source, concat, Source.lexemes, first, second]

/-- The end of an action: another action of the clause, another clause, or nothing. -/
def ActionEnds (rest : List Lexeme) : Prop :=
  rest = [] ∨ ∃ l others, rest = l :: others ∧ (l = .mark ',' ∨ ∃ chars, l = .word chars)

theorem ActionEnds.source {rest : List Lexeme} (h : ActionEnds rest) : SourceEnds rest := by
  obtain rfl | ⟨l, others, rfl, rfl | ⟨chars, rfl⟩⟩ := h <;> simp [SourceEnds, PathEnds]

/-- An action is read back. -/
theorem reads_action {a : UpdateAction} (rooted : a.path.IsRooted) :
    (action a.clause).Reads ActionEnds a.lexemes a := by
  have assignment {s : Source} (h : a.source? = some s) (clause : a.clause = .set)
      (lexemes : a.lexemes = a.path.lexemes ++ [.sign ['=']] ++ s.lexemes) :
      (action a.clause).Reads ActionEnds a.lexemes a := by
    intro rest hr
    have target := reads_path rooted (.sign ['='] :: (s.lexemes ++ rest)) (by simp [PathEnds])
    have read := reads_source (a.isRooted_source? rooted h) rest hr.source
    simp [clause, lexemes, action, target, read, UpdateAction.ofAssignment?_source? h]
  intro rest hr
  cases a with
  | add p v =>
    have target := reads_path rooted (.value v :: rest) (by simp [PathEnds])
    simp only [UpdateAction.path] at target
    simp [action, UpdateAction.clause, UpdateAction.lexemes, target, value]
  | deleteFrom p v =>
    have target := reads_path rooted (.value v :: rest) (by simp [PathEnds])
    simp only [UpdateAction.path] at target
    simp [action, UpdateAction.clause, UpdateAction.lexemes, target, value]
  | remove p =>
    have target := reads_path rooted rest hr.source.1
    simp only [UpdateAction.path] at target
    simp [action, UpdateAction.clause, UpdateAction.lexemes, target]
  | _ => exact assignment rfl rfl rfl rest hr

/-- The end of a clause: one of certain other clauses, or nothing. -/
def ClauseEnds (later : List Clause) (rest : List Lexeme) : Prop :=
  rest = [] ∨ ∃ c ∈ later, rest.head? = some (.keyword c.keyword)

theorem keyword_injective : Function.Injective Clause.keyword := by
  intro c d h
  cases c <;> cases d <;> first | rfl | simp [Clause.keyword] at h

theorem ClauseEnds.action {later : List Clause} {rest : List Lexeme}
    (h : ClauseEnds later rest) : ActionEnds rest ∧ rest.head? ≠ some (.mark ',') := by
  obtain rfl | ⟨c, -, found⟩ := h
  · exact ⟨.inl rfl, by simp⟩
  · obtain ⟨others, rfl⟩ := List.head?_eq_some_iff.1 found
    exact ⟨.inr ⟨_, others, rfl, .inr ⟨_, rfl⟩⟩, by simp [Lexeme.keyword]⟩

/-- A clause is read back, with all its actions. -/
theorem reads_clause {c : Clause} {actions : List UpdateAction}
    (rooted : ∀ a ∈ actions, a.clause = c ∧ a.path.IsRooted) {later : List Clause}
    (other : c ∉ later) : (clause c).Reads (ClauseEnds later) (c.lexemes actions) actions := by
  intro rest hr
  by_cases empty : actions = []
  · have missing : (do expect (.keyword c.keyword); separated (.mark ',') (action c) :
        Reader (List UpdateAction)).run rest = none := by
      obtain rfl | ⟨d, member, found⟩ := hr
      · simp
      · obtain ⟨others, rfl⟩ := List.head?_eq_some_iff.1 found
        have differs : d.keyword.toList ≠ c.keyword.toList := by
          intro same
          exact other (keyword_injective (String.toList_inj.1 same) ▸ member)
        simp [Lexeme.keyword, differs]
    rw [empty, clause, run_orElse]
    show ((do expect (.keyword c.keyword); separated (.mark ',') (action c) :
        Reader (List UpdateAction)).run rest).or _ = _
    rw [missing]
    rfl
  · have items : (separated (.mark ',') (action c)).Reads
        (fun rest => ActionEnds rest ∧ rest.head? ≠ some (.mark ','))
        (Lexeme.joined (.mark ',') (actions.map UpdateAction.lexemes)) actions := by
      apply reads_separated ActionEnds _ empty
      · exact fun rest => .inr ⟨_, rest, rfl, .inl rfl⟩
      · rw [List.forall₂_map_right_iff, List.forall₂_same]
        intro a member
        obtain ⟨rfl, hp⟩ := rooted a member
        exact reads_action hp
    have read := items rest hr.action
    simp [clause, Clause.lexemes, empty, read]

/-- What comes after a clause is the end of it. -/
theorem clauseEnds_lexemes (actions : Clause → List UpdateAction) (later : List Clause) :
    ClauseEnds later (later.flatMap fun c => c.lexemes (actions c)) := by
  induction later with
  | nil => exact .inl rfl
  | cons c later ih =>
    by_cases empty : actions c = []
    · rw [List.flatMap_cons, Clause.lexemes, empty]
      obtain nothing | ⟨d, member, found⟩ := ih
      · exact .inl (by simpa using nothing)
      · exact .inr ⟨d, List.mem_cons_of_mem c member, by simpa using found⟩
    · exact .inr ⟨c, List.mem_cons_self, by simp [Clause.lexemes, empty]⟩

theorem reads_clauses (actions : Clause → List UpdateAction) {cs : List Clause}
    (rooted : ∀ c ∈ cs, ∀ a ∈ actions c, a.clause = c ∧ a.path.IsRooted) (distinct : cs.Nodup) :
    (clauses cs).Reads (· = []) (cs.flatMap fun c => c.lexemes (actions c))
      (cs.flatMap actions) := by
  induction cs with
  | nil => exact reads_pure _ _
  | cons c later ih =>
    rw [List.nodup_cons] at distinct
    have others := ih (fun d hd => rooted d (List.mem_cons_of_mem c hd)) distinct.2
    have joined : (do
        let others ← clauses later
        return actions c ++ others : Reader (List UpdateAction)).Reads (· = [])
        (later.flatMap fun c => c.lexemes (actions c)) (actions c ++ later.flatMap actions) := by
      rw [← List.append_nil (later.flatMap fun c => c.lexemes (actions c))]
      exact others.bind (reads_pure _ _) fun rest hr => hr
    refine (reads_clause (rooted c List.mem_cons_self) distinct.1).bind joined ?_
    intro rest same
    subst same
    rw [List.append_nil]
    exact clauseEnds_lexemes actions later

/-- **An update is read back** from its lexemes, clause after clause. -/
theorem reads_update (actions : Clause → List UpdateAction)
    (rooted : ∀ c, ∀ a ∈ actions c, a.clause = c ∧ a.path.IsRooted) :
    update.Reads (· = []) (Clause.all.flatMap fun c => c.lexemes (actions c))
      (Clause.all.flatMap actions) :=
  reads_clauses actions (fun c _ => rooted c) (by decide)

/-! ### Updates with other values -/

section Values
open AttributeValue

theorem follows_present : Follows normalized (Operand.mapValues normalized) present present := by
  refine (follows_keyword _ "if_not_exists").bind fun _ => (follows_mark _ '(').bind fun _ => ?_
  refine (follows_path _).bind fun p => (follows_mark _ ',').bind fun _ => ?_
  refine (follows_value _).bind fun v => (follows_mark _ ')').bind fun _ => ?_
  exact follows_pure _ (Operand.present p v)

theorem follows_taken : Follows normalized (Operand.mapValues normalized) taken taken :=
  follows_present.orElse (Follows.orElse ((follows_value _).map fun _ => rfl)
    ((follows_path _).map fun _ => rfl))

theorem follows_concat : Follows normalized (Source.mapValues normalized) concat concat := by
  refine (follows_keyword _ "list_append").bind fun _ => (follows_mark _ '(').bind fun _ => ?_
  refine follows_taken.bind fun a => (follows_mark _ ',').bind fun _ => ?_
  refine follows_taken.bind fun b => (follows_mark _ ')').bind fun _ => ?_
  exact follows_pure _ (Source.concat a b)

theorem follows_source : Follows normalized (Source.mapValues normalized) source source := by
  refine follows_concat.orElse (follows_taken.bind fun a => Follows.orElse ?_ (.orElse ?_ ?_))
  · exact (follows_mark _ '+').bind fun _ => follows_taken.bind fun b =>
      follows_pure _ (Source.sum a b)
  · exact (follows_mark _ '-').bind fun _ => follows_taken.bind fun b =>
      follows_pure _ (Source.difference a b)
  · exact follows_pure _ (Source.one a)

theorem follows_action (c : Clause) :
    Follows normalized (UpdateAction.mapValues normalized) (action c) (action c) := by
  cases c with
  | set =>
    refine (follows_path _).bind fun p => ?_
    refine (follows_expect (Lexeme.mapValue_eq_sign _ ['='])).bind fun _ => ?_
    exact follows_source.bind fun s => follows_check (UpdateAction.ofAssignment?_mapValues p s)
  | add =>
    exact (follows_path _).bind fun p => (follows_value _).bind fun v =>
      follows_pure _ (UpdateAction.add p v)
  | remove => exact (follows_path _).map fun _ => rfl
  | delete =>
    exact (follows_path _).bind fun p => (follows_value _).bind fun v =>
      follows_pure _ (UpdateAction.deleteFrom p v)

theorem follows_clause (c : Clause) :
    Follows normalized (List.map (UpdateAction.mapValues normalized)) (clause c) (clause c) := by
  refine Follows.orElse ?_ (follows_pure _ [])
  exact (follows_keyword _ c.keyword).bind fun _ =>
    follows_separated (Lexeme.mapValue_eq_mark _ ',') (follows_action c)

theorem follows_clauses (cs : List Clause) :
    Follows normalized (List.map (UpdateAction.mapValues normalized)) (clauses cs)
      (clauses cs) := by
  induction cs with
  | nil => exact follows_pure _ []
  | cons c later ih =>
    refine (follows_clause c).bind fun first => ih.bind fun others => ?_
    rw [← List.map_append]
    exact follows_pure _ (first ++ others)

theorem follows_update :
    Follows normalized (List.map (UpdateAction.mapValues normalized)) update update :=
  follows_clauses Clause.all

end Values

end Grammar

end TableClient
