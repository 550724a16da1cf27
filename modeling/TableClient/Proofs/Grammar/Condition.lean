import TableClient.Expression.Condition
import TableClient.Proofs.Grammar.Path

/-! How conditions are written.

Disjunction binds loosest, then conjunction, then negation; an operand that joins or negates
others stands in parentheses. The word between the bounds of a range is the one that joins a
conjunction, so a test is read with its bounds before any conjunction is. Read back, the
lexemes of a condition whose groups have two members or more are the condition. -/
namespace TableClient

namespace Grammar
open Reader

/-- A sign of comparison. -/
def comparison : Reader Comparison := one fun
  | .sign chars => Comparison.ofSymbol? (String.ofList chars)
  | _ => none

/-- The name of a function that tests an attribute. -/
def function : Reader TestFunction := one fun
  | .word chars => TestFunction.ofName? (String.ofList chars)
  | _ => none

/-- What a test says of an attribute, after its path. -/
def predicate (p : Path) : Reader Condition :=
  (do let op ← comparison; return .compare op p (← value))
  <|> (do
    expect (.keyword "BETWEEN")
    let low ← value
    expect (.keyword "AND")
    return .between p low (← value))
  <|> (do
    expect (.keyword "IN")
    expect (.mark '(')
    let candidates ← values
    expect (.mark ')')
    return .isIn p candidates)

/-- A test of the size of an attribute. -/
def sizeTest : Reader Condition := do
  expect (.keyword "size")
  expect (.mark '(')
  let p ← path
  expect (.mark ')')
  let op ← comparison
  return .size op p (← value)

/-- A test by a function. -/
def functionTest : Reader Condition := do
  let tested ← function
  expect (.mark '(')
  let p ← path
  let arguments ← many (do expect (.mark ','); value)
  expect (.mark ')')
  return .test tested p arguments

/-- A condition that joins and negates none. -/
def test : Reader Condition := sizeTest <|> functionTest <|> path >>= predicate

/-- Operands that all hold. -/
def conjunction (operand : Reader Condition) : Reader Condition := do
  check (Condition.regroup .all (← separated (.keyword "AND") operand))

/-- Conjunctions one of which holds. -/
def disjunction (operand : Reader Condition) : Reader Condition := do
  check (Condition.regroup .any (← separated (.keyword "OR") (conjunction operand)))

/-- What conjunctions join, nested no deeper than a bound. -/
def operand : Nat → Reader Condition
  | 0 => check none
  | deeper + 1 =>
    (do expect (.keyword "NOT"); return .not (← operand deeper))
    <|> (do
      expect (.mark '(')
      let inner ← disjunction (operand deeper)
      expect (.mark ')')
      return inner)
    <|> test

/-- A condition. It is not nested deeper than it has lexemes. -/
def condition : Reader Condition := bounded fun bound => disjunction (operand bound)

end Grammar

/-- What a text says as a condition, with what its tokens stand for. -/
def Sense.condition? (σ : Sense) (text : String) : Option Condition :=
  Grammar.condition.whole (σ.lexemes text.toList)

/-! ### The lexemes of a condition -/

namespace Condition

/-- The lexemes of an operand, in parentheses if the operand is composite. -/
def enclosed (c : Condition) (lexemes : List Lexeme) : List Lexeme :=
  if c.isComposite then [.mark '('] ++ lexemes ++ [.mark ')'] else lexemes

mutual
/-- The lexemes of a condition. -/
def lexemes : Condition → List Lexeme
  | .compare op p v => p.lexemes ++ [.sign op.symbol.toList] ++ [.value v]
  | .between p low high =>
    p.lexemes ++ [.keyword "BETWEEN"] ++ [.value low] ++ [.keyword "AND"] ++ [.value high]
  | .isIn p candidates =>
    p.lexemes ++ [.keyword "IN", .mark '('] ++
      Lexeme.joined (.mark ',') (candidates.map fun v => [.value v]) ++ [.mark ')']
  | .test function p arguments =>
    [.keyword function.name, .mark '('] ++
      Lexeme.joined (.mark ',') (p.lexemes :: arguments.map fun v => [.value v]) ++ [.mark ')']
  | .size op p v =>
    [.keyword "size", .mark '('] ++ p.lexemes ++ [.mark ')', .sign op.symbol.toList] ++ [.value v]
  | .all conditions => Lexeme.joined (.keyword "AND") (operandLexemes conditions)
  | .any conditions => Lexeme.joined (.keyword "OR") (operandLexemes conditions)
  | .not c => [.keyword "NOT"] ++ enclosed c (lexemes c)

def operandLexemes : List Condition → List (List Lexeme)
  | [] => []
  | c :: rest => enclosed c (lexemes c) :: operandLexemes rest
end

theorem operandLexemes_eq_map (conditions : List Condition) :
    operandLexemes conditions = conditions.map fun c => enclosed c c.lexemes := by
  induction conditions with
  | nil => rfl
  | cons c rest ih => rw [operandLexemes, ih, List.map_cons]

/-- The groups of a condition have two members or more. -/
inductive IsPruned : Condition → Prop where
  | leaf {c : Condition} (h : c.isComposite = false) : IsPruned c
  | all {conditions : List Condition} (several : 2 ≤ conditions.length)
    (members : ∀ c ∈ conditions, IsPruned c) : IsPruned (.all conditions)
  | any {conditions : List Condition} (several : 2 ≤ conditions.length)
    (members : ∀ c ∈ conditions, IsPruned c) : IsPruned (.any conditions)
  | not {c : Condition} (member : IsPruned c) : IsPruned (.not c)

theorem isPruned_of_regroup {group : List Condition → Condition} {conditions : List Condition}
    {c : Condition} (members : ∀ c ∈ conditions, IsPruned c)
    (wrap : 2 ≤ conditions.length → IsPruned (group conditions))
    (h : regroup group conditions = some c) : IsPruned c := by
  match conditions with
  | [] => simp [regroup] at h
  | [only] =>
    obtain rfl : only = c := by simpa [regroup] using h
    exact members only (by simp)
  | first :: second :: rest =>
    obtain rfl : group (first :: second :: rest) = c := by simpa [regroup] using h
    exact wrap (by simp)

mutual
/-- What pruning leaves is pruned. -/
theorem isPruned_of_prune {t c : Condition} (h : t.prune = some c) : IsPruned c := by
  cases t with
  | all conditions =>
    exact isPruned_of_regroup (fun _ => isPruned_of_mem_pruneList)
      (fun several => .all several fun _ => isPruned_of_mem_pruneList) h
  | any conditions =>
    exact isPruned_of_regroup (fun _ => isPruned_of_mem_pruneList)
      (fun several => .any several fun _ => isPruned_of_mem_pruneList) h
  | not inner =>
    have negated : inner.prune.map .not = some c := h
    obtain ⟨kept, found, rfl⟩ := Option.map_eq_some_iff.1 negated
    exact .not (isPruned_of_prune found)
  | _ =>
    obtain rfl := Option.some.inj h
    exact .leaf rfl

theorem isPruned_of_mem_pruneList {ts : List Condition} {c : Condition} (h : c ∈ pruneList ts) :
    IsPruned c := by
  cases ts with
  | nil => simp [pruneList] at h
  | cons t rest =>
    cases kept : t.prune with
    | none =>
      rw [pruneList, kept] at h
      exact isPruned_of_mem_pruneList h
    | some first =>
      rw [pruneList, kept] at h
      rcases List.mem_cons.1 h with rfl | h
      · exact isPruned_of_prune kept
      · exact isPruned_of_mem_pruneList h
end

/-- The condition has a text: its paths begin with names, its membership tests have candidates,
and its groups have two members or more. -/
inductive Readable : Condition → Prop where
  | compare (op : Comparison) {p : Path} (v : AttributeValue) (rooted : p.IsRooted) :
    Readable (.compare op p v)
  | between {p : Path} (low high : AttributeValue) (rooted : p.IsRooted) :
    Readable (.between p low high)
  | isIn {p : Path} {candidates : List AttributeValue} (rooted : p.IsRooted)
    (some : candidates ≠ []) : Readable (.isIn p candidates)
  | test (function : TestFunction) {p : Path} (arguments : List AttributeValue)
    (rooted : p.IsRooted) : Readable (.test function p arguments)
  | size (op : Comparison) {p : Path} (v : AttributeValue) (rooted : p.IsRooted) :
    Readable (.size op p v)
  | all {conditions : List Condition} (several : 2 ≤ conditions.length)
    (members : ∀ c ∈ conditions, Readable c) : Readable (.all conditions)
  | any {conditions : List Condition} (several : 2 ≤ conditions.length)
    (members : ∀ c ∈ conditions, Readable c) : Readable (.any conditions)
  | not {c : Condition} (member : Readable c) : Readable (.not c)

/-! ### Values -/

section Values
variable (f : AttributeValue → AttributeValue)

mutual
/-- A condition with its values changed. -/
def mapValues : Condition → Condition
  | .compare op p v => .compare op p (f v)
  | .between p low high => .between p (f low) (f high)
  | .isIn p candidates => .isIn p (candidates.map f)
  | .test function p arguments => .test function p (arguments.map f)
  | .size op p v => .size op p (f v)
  | .all conditions => .all (mapValuesList conditions)
  | .any conditions => .any (mapValuesList conditions)
  | .not c => .not (mapValues c)

def mapValuesList : List Condition → List Condition
  | [] => []
  | c :: rest => mapValues c :: mapValuesList rest
end

theorem mapValuesList_eq_map (conditions : List Condition) :
    mapValuesList f conditions = conditions.map (mapValues f) := by
  induction conditions with
  | nil => rfl
  | cons c rest ih => rw [mapValuesList, ih, List.map_cons]

end Values

/-- Members may be changed before they are grouped, or after. -/
theorem regroup_map {group : List Condition → Condition} {f : Condition → Condition}
    (commutes : ∀ cs, f (group cs) = group (cs.map f)) (conditions : List Condition) :
    regroup group (conditions.map f) = (regroup group conditions).map f := by
  match conditions with
  | [] => rfl
  | [_] => rfl
  | first :: second :: rest => exact congrArg some (commutes (first :: second :: rest)).symm

/-- Conditions are the same but for the order and repetition of the members of sets. -/
def SameAs (c d : Condition) : Prop :=
  c.mapValues AttributeValue.normalized = d.mapValues AttributeValue.normalized

end Condition

namespace Grammar
open Reader

/-! ### Tests -/

theorem ofSymbol?_symbol (op : Comparison) : Comparison.ofSymbol? op.symbol = some op := by
  cases op <;> decide

theorem ofName?_name (tested : TestFunction) : TestFunction.ofName? tested.name = some tested := by
  cases tested <;> decide

theorem reads_comparison (op : Comparison) :
    comparison.Reads anything [.sign op.symbol.toList] op := by
  intro rest _
  simp [comparison, ofSymbol?_symbol]

theorem reads_function (tested : TestFunction) :
    function.Reads anything [.keyword tested.name] tested := by
  intro rest _
  simp [function, Lexeme.keyword, ofName?_name]

/-- A test that begins with a path. -/
theorem reads_test_of_predicate {p : Path} (rooted : p.IsRooted) {follow : List Lexeme → Prop}
    {ls : List Lexeme} {c : Condition} (ends : ∀ rest, PathEnds (ls ++ rest))
    (h : (predicate p).Reads follow ls c) : test.Reads follow (p.lexemes ++ ls) c := by
  intro rest hr
  have path := (reads_path rooted).bind h (fun rest _ => ends rest) rest hr
  obtain ⟨⟨segments⟩, first, later, rfl⟩ := p, rooted
  have sized : sizeTest.run (Path.lexemes ⟨.name first :: later⟩ ++ ls ++ rest) = none := by
    simp [sizeTest, Path.lexemes, Lexeme.keyword]
  have called : functionTest.run (Path.lexemes ⟨.name first :: later⟩ ++ ls ++ rest) = none := by
    simp [functionTest, function, Path.lexemes]
  rw [test, run_orElse, run_orElse, sized, called, path]
  rfl

/-- Values stand before a mark other than the comma. -/
theorem reads_arguments (vs : List AttributeValue) :
    (many (do expect (.mark ','); value)).Reads (fun rest => rest.head? = some (.mark ')'))
      (vs.flatMap fun v => [.mark ',', .value v]) vs := by
  rw [List.flatMap_def]
  apply (reads_many anything ?_).mono
  · intro rest hr
    cases rest with
    | nil => simp at hr
    | cons l rest =>
      obtain rfl : l = .mark ')' := by simpa using hr
      exact ⟨trivial, rfl⟩
  · rw [List.forall₂_map_right_iff, List.forall₂_same]
    intro v _
    exact ⟨by simp, fun _ => trivial, fun _ _ => rfl⟩

theorem reads_compare (op : Comparison) (p : Path) (v : AttributeValue) :
    (predicate p).Reads anything ([.sign op.symbol.toList] ++ [.value v])
      (.compare op p v) := by
  intro rest _
  have := reads_comparison op ([.value v] ++ rest) trivial
  simp only [List.singleton_append] at this
  simp [predicate, this, value]

theorem reads_between (p : Path) (low high : AttributeValue) :
    (predicate p).Reads anything
      ([.keyword "BETWEEN"] ++ [.value low] ++ [.keyword "AND"] ++ [.value high])
      (.between p low high) := by
  intro rest _
  simp [predicate, comparison, Lexeme.keyword, value]

theorem reads_isIn (p : Path) {candidates : List AttributeValue} (some : candidates ≠ []) :
    (predicate p).Reads anything
      ([.keyword "IN", .mark '('] ++
        Lexeme.joined (.mark ',') (candidates.map fun v => [.value v]) ++ [.mark ')'])
      (.isIn p candidates) := by
  intro rest _
  have := reads_values some (.mark ')' :: rest) (by simp)
  simp [predicate, comparison, Lexeme.keyword, this]

theorem reads_size (op : Comparison) {p : Path} (v : AttributeValue) (rooted : p.IsRooted) :
    test.Reads anything (Condition.size op p v).lexemes (.size op p v) := by
  intro rest _
  have tested := reads_path rooted (.mark ')' :: .sign op.symbol.toList :: .value v :: rest)
    (by simp [PathEnds])
  have compared := reads_comparison op (.value v :: rest) trivial
  simp only [List.singleton_append] at compared
  simp [test, sizeTest, Condition.lexemes, tested, compared, value]

theorem reads_function_test (tested : TestFunction) {p : Path} (arguments : List AttributeValue)
    (rooted : p.IsRooted) :
    test.Reads anything (Condition.test tested p arguments).lexemes
      (.test tested p arguments) := by
  intro rest _
  have sized (ls : List Lexeme) : sizeTest.run (.keyword tested.name :: ls) = none := by
    cases tested <;> simp [sizeTest, Lexeme.keyword, TestFunction.name]
  have called (ls : List Lexeme) :
      function.run (.keyword tested.name :: ls) = some (tested, ls) :=
    reads_function tested ls trivial
  have path := reads_path rooted
    ((arguments.flatMap fun v => [.mark ',', .value v]) ++ .mark ')' :: rest)
    (by cases arguments <;> simp [PathEnds])
  have values := reads_arguments arguments (.mark ')' :: rest) rfl
  simp [test, sized, functionTest, Condition.lexemes, Lexeme.joined, called, List.flatMap_map,
    path, values]

/-- A condition that joins and negates none is read as a test. -/
theorem reads_test {c : Condition} (h : c.Readable) (leaf : c.isComposite = false) :
    test.Reads anything c.lexemes c := by
  cases h with
  | @compare op p v rooted =>
    rw [Condition.lexemes, List.append_assoc]
    exact reads_test_of_predicate rooted (by simp [PathEnds]) (reads_compare op p v)
  | @between p low high rooted =>
    rw [Condition.lexemes]
    simp only [List.append_assoc p.lexemes]
    exact reads_test_of_predicate rooted (by simp [PathEnds, Lexeme.keyword])
      (reads_between p low high)
  | @isIn p candidates rooted some =>
    rw [Condition.lexemes]
    simp only [List.append_assoc p.lexemes]
    exact reads_test_of_predicate rooted (by simp [PathEnds, Lexeme.keyword]) (reads_isIn p some)
  | test tested arguments rooted => exact reads_function_test tested arguments rooted
  | size op v rooted => exact reads_size op v rooted
  | all | any | not => simp [Condition.isComposite] at leaf

/-! ### Operands and what joins them -/

/-- Nothing that goes on with a disjunction. -/
def GroupEnds (rest : List Lexeme) : Prop :=
  rest.head? ≠ some (.keyword "AND") ∧ rest.head? ≠ some (.keyword "OR")

theorem check_regroup {group : List Condition → Condition} {conditions : List Condition}
    (several : 2 ≤ conditions.length) :
    Condition.regroup group conditions = some (group conditions) := by
  match conditions with
  | _ :: _ :: _ => rfl

/-- Operands with the word of a conjunction between each two. -/
theorem reads_conjunction {operand : Reader Condition} {cs : List Condition}
    {lss : List (List Lexeme)}
    (h : List.Forall₂ (fun c ls => operand.Reads anything ls c) cs lss) {c : Condition}
    (joined : Condition.regroup .all cs = some c) :
    (conjunction operand).Reads (fun rest => rest.head? ≠ some (.keyword "AND"))
      (Lexeme.joined (.keyword "AND") lss) c := by
  have some : cs ≠ [] := by
    intro same
    subst same
    simp [Condition.regroup] at joined
  rw [← List.append_nil (Lexeme.joined _ lss)]
  exact (reads_separated _ h some fun _ => trivial).bind (reads_check joined _)
    fun rest hr => ⟨trivial, hr⟩

theorem reads_disjunction {operand : Reader Condition} {cs : List Condition}
    {lss : List (List Lexeme)}
    (h : List.Forall₂ (fun c ls => (conjunction operand).Reads
      (fun rest => rest.head? ≠ some (.keyword "AND")) ls c) cs lss)
    {c : Condition} (joined : Condition.regroup .any cs = some c) :
    (disjunction operand).Reads GroupEnds (Lexeme.joined (.keyword "OR") lss) c := by
  have some : cs ≠ [] := by
    intro same
    subst same
    simp [Condition.regroup] at joined
  rw [← List.append_nil (Lexeme.joined _ lss)]
  exact (reads_separated _ h some fun _ => by simp [Lexeme.keyword]).bind (reads_check joined _)
    fun rest hr => hr

/-- A conjunction on its own. -/
theorem reads_disjunction_of_conjunction {operand : Reader Condition} {ls : List Lexeme}
    {c : Condition} (h : (conjunction operand).Reads
      (fun rest => rest.head? ≠ some (.keyword "AND")) ls c) :
    (disjunction operand).Reads GroupEnds ls c := by
  have := reads_disjunction (.cons h .nil) (c := c) rfl
  simpa [Lexeme.joined] using this

/-- An operand on its own. -/
theorem reads_conjunction_of_operand {operand : Reader Condition} {ls : List Lexeme}
    {c : Condition} (h : operand.Reads anything ls c) :
    (conjunction operand).Reads (fun rest => rest.head? ≠ some (.keyword "AND")) ls c := by
  have := reads_conjunction (.cons h .nil) (c := c) rfl
  simpa [Lexeme.joined] using this

/-- A test begins with a name or a word. -/
theorem exists_head {c : Condition} (h : c.Readable) (leaf : c.isComposite = false) :
    ∃ l others, c.lexemes = l :: others ∧ l ≠ .keyword "NOT" ∧ l ≠ .mark '(' := by
  have path {p : Path} (rooted : p.IsRooted) (ls : List Lexeme) :
      ∃ l others, p.lexemes ++ ls = l :: others ∧ l ≠ .keyword "NOT" ∧ l ≠ .mark '(' := by
    obtain ⟨⟨segments⟩, first, later, rfl⟩ := p, rooted
    exact ⟨.name first, _, rfl, by simp [Lexeme.keyword], by simp⟩
  cases h with
  | compare op v rooted => simpa [Condition.lexemes] using path rooted _
  | between low high rooted => simpa [Condition.lexemes] using path rooted _
  | isIn rooted some => simpa [Condition.lexemes] using path rooted _
  | test tested arguments rooted =>
    exact ⟨_, _, rfl, by cases tested <;> decide, by simp [Lexeme.keyword]⟩
  | size op v rooted => exact ⟨_, _, rfl, by decide, by simp [Lexeme.keyword]⟩
  | all | any | not => simp [Condition.isComposite] at leaf

theorem reads_operand_of_leaf {c : Condition} (h : c.Readable) (leaf : c.isComposite = false)
    (bound : Nat) (deep : c.lexemes.length ≤ bound) :
    (operand bound).Reads anything c.lexemes c := by
  obtain ⟨l, others, shape, negates, opens⟩ := exists_head h leaf
  intro rest _
  have read := reads_test h leaf rest trivial
  rw [shape] at deep read ⊢
  cases bound with
  | zero => simp at deep
  | succ bound =>
    simp only [List.cons_append] at read
    simp [operand, negates, opens, read]

/-- An operand is read with its parentheses, if it has any. -/
theorem reads_enclosed {c : Condition} (h : c.Readable)
    (inner : ∀ bound, c.lexemes.length ≤ bound →
      (disjunction (operand bound)).Reads GroupEnds c.lexemes c) (bound : Nat)
    (deep : (c.enclosed c.lexemes).length ≤ bound) :
    (operand bound).Reads anything (c.enclosed c.lexemes) c := by
  unfold Condition.enclosed at deep ⊢
  split at deep
  · next composite =>
    intro rest _
    cases bound with
    | zero => simp at deep
    | succ bound =>
      have read := inner bound (by simp at deep; omega) (.mark ')' :: rest)
        (by simp [GroupEnds, Lexeme.keyword])
      simp [composite, operand, Lexeme.keyword, read]
  · next leaf =>
    rw [Bool.not_eq_true] at leaf
    rw [leaf]
    exact reads_operand_of_leaf h leaf bound deep

/-- Whatever a condition is, it is read as a disjunction. -/
theorem reads_nested {c : Condition} (h : c.Readable) (bound : Nat)
    (deep : c.lexemes.length ≤ bound) :
    (disjunction (operand bound)).Reads GroupEnds c.lexemes c := by
  have leaf {c : Condition} (h : c.Readable) (simple : c.isComposite = false) (bound : Nat)
      (deep : c.lexemes.length ≤ bound) :
      (disjunction (operand bound)).Reads GroupEnds c.lexemes c :=
    reads_disjunction_of_conjunction
      (reads_conjunction_of_operand (reads_operand_of_leaf h simple bound deep))
  induction h generalizing bound with
  | compare op v rooted => exact leaf (.compare op v rooted) rfl bound deep
  | between low high rooted => exact leaf (.between low high rooted) rfl bound deep
  | isIn rooted some => exact leaf (.isIn rooted some) rfl bound deep
  | test function arguments rooted => exact leaf (.test function arguments rooted) rfl bound deep
  | size op v rooted => exact leaf (.size op v rooted) rfl bound deep
  | @all conditions several members ih =>
    rw [Condition.lexemes, Condition.operandLexemes_eq_map] at deep ⊢
    apply reads_disjunction_of_conjunction
    apply reads_conjunction _ (check_regroup several)
    rw [List.forall₂_map_right_iff, List.forall₂_same]
    intro c member
    exact reads_enclosed (members c member) (ih c member) bound
      ((Lexeme.length_le_joined (List.mem_map_of_mem member)).trans deep)
  | @any conditions several members ih =>
    rw [Condition.lexemes, Condition.operandLexemes_eq_map] at deep ⊢
    apply reads_disjunction _ (check_regroup several)
    rw [List.forall₂_map_right_iff, List.forall₂_same]
    intro c member
    exact reads_conjunction_of_operand (reads_enclosed (members c member) (ih c member) bound
      ((Lexeme.length_le_joined (List.mem_map_of_mem member)).trans deep))
  | @not c member ih =>
    rw [Condition.lexemes] at deep ⊢
    apply reads_disjunction_of_conjunction
    apply reads_conjunction_of_operand
    intro rest _
    cases bound with
    | zero => simp at deep
    | succ bound =>
      have read := reads_enclosed member ih bound (by simp at deep; omega) rest trivial
      simp [operand, read]

/-- **A condition is read back** from its lexemes. -/
theorem reads_condition {c : Condition} (h : c.Readable) :
    condition.Reads GroupEnds c.lexemes c := by
  intro rest hr
  rw [condition, run_bounded]
  exact reads_nested h _ (by simp) rest hr

-- the bounds of a range belong together before operands do, and conjunctions before disjunctions
example : Sense.condition? ⟨some, fun _ => some (.number "1")⟩
    "#a BETWEEN :v AND :v OR #b = :v AND NOT (#c = :v)" =
    some (.any [.between ⟨[.name "#a"]⟩ (.number "1") (.number "1"),
      .all [.compare .eq ⟨[.name "#b"]⟩ (.number "1"),
        .not (.compare .eq ⟨[.name "#c"]⟩ (.number "1"))]]) := by
  cbv

/-! ### Conditions with other values -/

section Values
variable (f : AttributeValue → AttributeValue)

theorem follows_comparison : Follows f id comparison comparison :=
  follows_one fun l => by cases l <;> simp [Lexeme.mapValue]

theorem follows_function : Follows f id function function :=
  follows_one fun l => by cases l <;> simp [Lexeme.mapValue]

theorem follows_predicate (p : Path) :
    Follows f (Condition.mapValues f) (predicate p) (predicate p) := by
  apply Follows.orElse
  · refine (follows_comparison f).bind fun op => ?_
    exact (follows_value f).bind fun v => follows_pure _ (Condition.compare op p v)
  apply Follows.orElse
  · refine (follows_keyword f "BETWEEN").bind fun _ => (follows_value f).bind fun low => ?_
    refine (follows_keyword f "AND").bind fun _ => (follows_value f).bind fun high => ?_
    exact follows_pure _ (Condition.between p low high)
  · refine (follows_keyword f "IN").bind fun _ => (follows_mark f '(').bind fun _ => ?_
    refine (follows_values f).bind fun candidates => (follows_mark f ')').bind fun _ => ?_
    exact follows_pure _ (Condition.isIn p candidates)

theorem follows_sizeTest : Follows f (Condition.mapValues f) sizeTest sizeTest := by
  refine (follows_keyword f "size").bind fun _ => (follows_mark f '(').bind fun _ => ?_
  refine (follows_path f).bind fun p => (follows_mark f ')').bind fun _ => ?_
  refine (follows_comparison f).bind fun op => (follows_value f).bind fun v => ?_
  exact follows_pure _ (Condition.size op p v)

theorem follows_functionTest : Follows f (Condition.mapValues f) functionTest functionTest := by
  have more : Follows f f (do expect (.mark ','); value) (do expect (.mark ','); value) :=
    (follows_mark f ',').bind fun _ => follows_value f
  refine (follows_function f).bind fun tested => (follows_mark f '(').bind fun _ => ?_
  refine (follows_path f).bind fun p => (follows_many more).bind fun arguments => ?_
  exact (follows_mark f ')').bind fun _ => follows_pure _ (Condition.test tested p arguments)

theorem follows_test : Follows f (Condition.mapValues f) test test :=
  (follows_sizeTest f).orElse
    ((follows_functionTest f).orElse ((follows_path f).bind (follows_predicate f)))

variable {f} {operand operand' : Reader Condition}
  (h : Follows f (Condition.mapValues f) operand operand')
include h

theorem follows_conjunction :
    Follows f (Condition.mapValues f) (conjunction operand) (conjunction operand') :=
  (follows_separated (Lexeme.mapValue_eq_keyword f "AND") h).bind fun conditions =>
    follows_check (Condition.regroup_map (fun cs => by
      rw [Condition.mapValues, Condition.mapValuesList_eq_map]) conditions)

theorem follows_disjunction :
    Follows f (Condition.mapValues f) (disjunction operand) (disjunction operand') :=
  (follows_separated (Lexeme.mapValue_eq_keyword f "OR") (follows_conjunction h)).bind
    fun conditions => follows_check (Condition.regroup_map (fun cs => by
      rw [Condition.mapValues, Condition.mapValuesList_eq_map]) conditions)

omit h

variable (f) in
theorem follows_operand (bound : Nat) :
    Follows f (Condition.mapValues f) (Grammar.operand bound) (Grammar.operand bound) := by
  induction bound with
  | zero => exact follows_check rfl
  | succ deeper ih =>
    apply Follows.orElse
    · exact (follows_keyword f "NOT").bind fun _ => ih.bind fun c =>
        follows_pure _ (Condition.not c)
    apply Follows.orElse
    · refine (follows_mark f '(').bind fun _ => (follows_disjunction ih).bind fun c => ?_
      exact (follows_mark f ')').bind fun _ => follows_pure _ c
    · exact follows_test f

variable (f) in
theorem follows_condition : Follows f (Condition.mapValues f) condition condition := by
  intro lexemes
  rw [condition, run_bounded, run_bounded, List.length_map]
  exact follows_disjunction (follows_operand f lexemes.length) lexemes

end Values

end Grammar

end TableClient
