import TableClient.Proofs.Grammar.Reader

/-! How paths are written.

A path begins with a name; the names after it stand behind points, list indices in
brackets. -/
namespace TableClient

namespace Grammar
open Reader

/-- A name, behind whatever token. -/
def name : Reader String := one fun
  | .name text => some text
  | _ => none

/-- A value, behind whatever token. -/
def value : Reader AttributeValue := one fun
  | .value v => some v
  | _ => none

/-- A list index. -/
def position : Reader Nat := one fun
  | .word chars => Number.ofDigits? chars
  | _ => none

/-- A step of a path that is not the first. -/
def step : Reader Segment :=
  (do expect (.mark '.'); return .name (← name))
  <|> (do expect (.mark '['); let n ← position; expect (.mark ']'); return .index n)

/-- A path. -/
def path : Reader Path := do
  let first ← name
  let later ← many step
  return ⟨.name first :: later⟩

/-- One value or more. -/
def values : Reader (List AttributeValue) := separated (.mark ',') value

/-- The paths of a projection. -/
def projection : Reader (List Path) := separated (.mark ',') path

end Grammar

/-- What a text says as a projection, with what its tokens stand for. -/
def Sense.projection? (σ : Sense) (text : String) : Option (List Path) :=
  Grammar.projection.whole (σ.lexemes text.toList)

/-! ### The lexemes of a path -/

/-- The lexemes of a step that is not the first. -/
def Segment.lexemes : Segment → List Lexeme
  | .name text => [.mark '.', .name text]
  | .index n => [.mark '[', .word (toString n).toList, .mark ']']

/-- A list index is written in brackets. -/
theorem isJoint_index (n : Nat) :
    IsJoint ("[" ++ toString n ++ "]") (Segment.index n).lexemes := by
  have word : ∀ c ∈ (toString n).toList, Token.isWordChar c = true :=
    fun _ => Token.isWordChar_of_mem_toString
  have some : (toString n).toList ≠ [] := by simp
  have chars : ("[" ++ toString n ++ "]").toList = '[' :: ((toString n).toList ++ [']']) := by
    simp only [String.toList_append, List.append_assoc]
    rfl
  rw [Segment.lexemes]
  generalize (toString n).toList = digits at word some chars
  have plain : ∀ c ∈ digits, Token.isSigil c = false := by
    intro c hc
    cases sigil : Token.isSigil c with
    | false => rfl
    | true => exact absurd (word c hc) (by simp [Token.isWordChar_of_isSigil sigil])
  refine ⟨⟨?_, ?_, ?_⟩, ?_⟩
  · rw [chars]
    simpa using ⟨by decide, plain, by decide⟩
  · rw [chars, ← List.cons_append, List.getLast?_append]
    rfl
  · rw [chars, Lexeme.ofChars, List.map_cons, List.map_append, Lexeme.ofSymbols, List.foldr_cons,
      List.foldr_append]
    show List.filter _ (Lexeme.before (.plain '[')
      ((digits.map Symbol.plain).foldr Lexeme.before [.mark ']'])) = _
    rw [Lexeme.foldr_before_word word some]
    rfl
  · rw [chars]
    rfl

namespace Path

/-- The lexemes of a path that begins with a name. -/
def lexemes (p : Path) : List Lexeme :=
  match p.segments with
  | .name first :: later => .name first :: later.flatMap Segment.lexemes
  | _ => []

/-- The path begins with a name. -/
def IsRooted (p : Path) : Prop := ∃ first later, p.segments = .name first :: later

end Path

/-! ### Reading back -/

namespace Number

theorem ofDigitsFrom_eq {digits : List Char} (h : ∀ c ∈ digits, c.isDigit = true) (acc : Nat) :
    ofDigitsFrom acc digits = some (Nat.ofDigitChars 10 digits acc) := by
  induction digits generalizing acc with
  | nil => rfl
  | cons c rest ih =>
    have digit := h c List.mem_cons_self
    simp only [Char.isDigit, Bool.and_eq_true, decide_eq_true_eq] at digit
    have known : digitValue? c = some (c.toNat - '0'.toNat) := if_pos digit
    rw [ofDigitsFrom, known, Nat.ofDigitChars_cons,
      ← ih fun d hd => h d (List.mem_cons_of_mem c hd), Nat.mul_comm]
    rfl

/-- The decimal digits of a number are read as the number. -/
theorem ofDigits?_toDigits (n : Nat) : ofDigits? (Nat.toDigits 10 n) = some n := by
  have digits : ∀ c ∈ Nat.toDigits 10 n, c.isDigit = true :=
    fun _ hc => Nat.isDigit_of_mem_toDigits (by decide) (by decide) hc
  have read := ofDigitsFrom_eq digits 0
  rw [Nat.ofDigitChars_ten_toDigits] at read
  cases shape : Nat.toDigits 10 n with
  | nil => exact absurd shape Nat.toDigits_ne_nil
  | cons c rest => rwa [shape] at read

end Number

namespace Grammar
open Reader

/-- Nothing that goes on with a path. -/
def PathEnds (rest : List Lexeme) : Prop :=
  rest.head? ≠ some (.mark '.') ∧ rest.head? ≠ some (.mark '[')

theorem step_ends {rest : List Lexeme} (h : PathEnds rest) : step.run rest = none := by
  cases rest with
  | nil => rfl
  | cons l rest =>
    obtain ⟨point, bracket⟩ : l ≠ .mark '.' ∧ l ≠ .mark '[' := by simpa [PathEnds] using h
    simp [step, point, bracket]

theorem reads_value (v : AttributeValue) : value.Reads anything [.value v] v :=
  fun _ _ => rfl

theorem reads_step (s : Segment) : step.Reads anything s.lexemes s := by
  intro rest _
  cases s with
  | name text => simp [step, Segment.lexemes, name]
  | index n => simp [step, Segment.lexemes, position, Number.ofDigits?_toDigits]

/-- A path is read back. -/
theorem reads_path {p : Path} (h : p.IsRooted) : path.Reads PathEnds p.lexemes p := by
  obtain ⟨segments⟩ := p
  obtain ⟨first, later, rfl⟩ := h
  have steps : (many step).Reads PathEnds (later.flatMap Segment.lexemes) later := by
    rw [List.flatMap_def]
    apply (reads_many anything ?_).mono fun rest hr => ⟨trivial, step_ends hr⟩
    rw [List.forall₂_map_right_iff, List.forall₂_same]
    intro s _
    exact ⟨by cases s <;> simp [Segment.lexemes], fun _ => trivial, reads_step s⟩
  intro rest hr
  have := steps rest hr
  simp [path, Path.lexemes, name, this]

theorem reads_values {vs : List AttributeValue} (h : vs ≠ []) :
    values.Reads (fun rest => rest.head? ≠ some (.mark ','))
      (Lexeme.joined (.mark ',') (vs.map fun v => [.value v])) vs := by
  refine (reads_separated anything ?_ h fun _ => trivial).mono
    fun rest hr => ⟨trivial, hr⟩
  rw [List.forall₂_map_right_iff, List.forall₂_same]
  exact fun v _ => reads_value v

/-- Paths are read back in order. -/
theorem reads_projection {ps : List Path} (rooted : ∀ p ∈ ps, p.IsRooted) (h : ps ≠ []) :
    projection.Reads (fun rest => PathEnds rest ∧ rest.head? ≠ some (.mark ','))
      (Lexeme.joined (.mark ',') (ps.map Path.lexemes)) ps := by
  apply reads_separated PathEnds _ h
  · intro rest
    constructor <;> simp
  · rw [List.forall₂_map_right_iff, List.forall₂_same]
    exact fun p hp => reads_path (rooted p hp)

/-! ### Paths have no values -/

section Values
variable (f : AttributeValue → AttributeValue)

theorem follows_name : Follows f id name name :=
  follows_one fun l => by cases l <;> rfl

theorem follows_value : Follows f f value value :=
  follows_one fun l => by cases l <;> rfl

theorem follows_position : Follows f id position position :=
  follows_one fun l => by cases l <;> simp [Lexeme.mapValue]

theorem follows_mark (c : Char) : Follows f id (expect (.mark c)) (expect (.mark c)) :=
  follows_expect (Lexeme.mapValue_eq_mark f c)

theorem follows_keyword (text : String) :
    Follows f id (expect (.keyword text)) (expect (.keyword text)) :=
  follows_expect (Lexeme.mapValue_eq_keyword f text)

theorem follows_step : Follows f id step step := by
  apply Follows.orElse
  · exact (follows_mark f '.').bind fun _ => (follows_name f).bind fun text =>
      follows_pure id (Segment.name text)
  · exact (follows_mark f '[').bind fun _ => (follows_position f).bind fun n =>
      (follows_mark f ']').bind fun _ => follows_pure id (Segment.index n)

theorem follows_path : Follows f id path path := by
  refine (follows_name f).bind fun first => ?_
  have later := follows_many (follows_step f)
  rw [List.map_id_fun] at later
  exact later.bind fun steps => follows_pure id (Path.mk (.name first :: steps))

theorem follows_values : Follows f (List.map f) values values :=
  follows_separated (Lexeme.mapValue_eq_mark f ',') (follows_value f)

theorem follows_projection : Follows f id projection projection := by
  have paths := follows_separated (Lexeme.mapValue_eq_mark f ',') (follows_path f)
  rwa [List.map_id_fun] at paths

end Values

end Grammar

end TableClient
