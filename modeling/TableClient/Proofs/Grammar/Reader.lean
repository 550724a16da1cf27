import TableClient.Proofs.Grammar.Lexeme

/-! Readers, the means to say how expressions are built from lexemes.

A reader takes what it reads from the beginning of lexemes and leaves the rest. `Reads` says
what a reader makes of certain lexemes, whatever comes after them. `Follows` says that a
reader does not look into values: with other values in the lexemes it reads the same, with the
other values in the result. -/
namespace TableClient.Grammar

/-- Reads something at the beginning of lexemes and leaves the rest. -/
abbrev Reader (α : Type) := StateT (List Lexeme) Option α

namespace Reader
variable {α β : Type}

/-- Reads one lexeme. -/
def one (pick : Lexeme → Option α) : Reader α
  | [] => none
  | l :: rest => (pick l).map fun a => (a, rest)

/-- Reads a certain lexeme. -/
def expect (l : Lexeme) : Reader Unit := one fun found => if found = l then some () else none

/-- Reads as many items as there are. -/
def manyFrom (item : Reader α) (lexemes : List Lexeme) : List α × List Lexeme :=
  match item.run lexemes with
  | none => ([], lexemes)
  | some (a, rest) =>
    if rest.length < lexemes.length then
      (a :: (manyFrom item rest).1, (manyFrom item rest).2)
    else ([], lexemes)
termination_by lexemes.length

/-- Reads as many items as there are. -/
def many (item : Reader α) : Reader (List α) := fun lexemes => some (manyFrom item lexemes)

/-- Reads one item or more, with a lexeme between each two. -/
def separated (separator : Lexeme) (item : Reader α) : Reader (List α) := do
  let first ← item
  let others ← many (do expect separator; item)
  return first :: others

/-- Reads nothing, and goes on only if there is a result. -/
def check (result : Option α) : Reader α := StateT.lift result

/-- Reads something that may be nested as deep as there are lexemes. -/
def bounded (nested : Nat → Reader α) : Reader α := fun lexemes =>
  (nested lexemes.length).run lexemes

/-- What a reader makes of lexemes of which it leaves none. -/
def whole (r : Reader α) (lexemes : List Lexeme) : Option α :=
  match r.run lexemes with
  | some (a, []) => some a
  | _ => none

@[simp] theorem run_one_cons (pick : Lexeme → Option α) (l : Lexeme) (rest : List Lexeme) :
    (one pick).run (l :: rest) = (pick l).map fun a => (a, rest) := rfl

@[simp] theorem run_expect_nil (l : Lexeme) : (expect l).run [] = none := by
  unfold expect
  rfl

@[simp] theorem run_expect_cons (l found : Lexeme) (rest : List Lexeme) :
    (expect l).run (found :: rest) = if found = l then some ((), rest) else none := by
  unfold expect
  rw [run_one_cons]
  split <;> rfl

@[simp] theorem run_check (result : Option α) (lexemes : List Lexeme) :
    (check result).run lexemes = result.map fun a => (a, lexemes) := by
  cases result <;> rfl

theorem run_bounded (nested : Nat → Reader α) (lexemes : List Lexeme) :
    (bounded nested).run lexemes = (nested lexemes.length).run lexemes := rfl

@[simp] theorem run_orElse (r s : Reader α) (lexemes : List Lexeme) :
    (r <|> s).run lexemes = (r.run lexemes).or (s.run lexemes) := by
  show (r.run lexemes <|> s.run lexemes) = _
  cases r.run lexemes <;> rfl

/-! ### What a reader makes of lexemes -/

/-- Whatever follows. -/
def anything (_ : List Lexeme) : Prop := True

/-- A reader takes these lexemes for `a`, if what follows them is as it should be. -/
def Reads (r : Reader α) (follow : List Lexeme → Prop) (lexemes : List Lexeme) (a : α) : Prop :=
  ∀ rest, follow rest → r.run (lexemes ++ rest) = some (a, rest)

theorem Reads.whole {r : Reader α} {follow : List Lexeme → Prop} {lexemes : List Lexeme} {a : α}
    (h : r.Reads follow lexemes a) (hf : follow []) : r.whole lexemes = some a := by
  have := h [] hf
  rw [List.append_nil] at this
  rw [Reader.whole, this]

theorem Reads.mono {r : Reader α} {follow follow' : List Lexeme → Prop} {lexemes : List Lexeme}
    {a : α} (h : r.Reads follow lexemes a) (hf : ∀ rest, follow' rest → follow rest) :
    r.Reads follow' lexemes a :=
  fun rest hr => h rest (hf rest hr)

theorem reads_pure (a : α) (follow : List Lexeme → Prop) :
    (pure a : Reader α).Reads follow [] a :=
  fun _ _ => rfl

theorem reads_check {result : Option α} {a : α} (h : result = some a)
    (follow : List Lexeme → Prop) : (check result).Reads follow [] a := by
  intro rest _
  simp [h]

/-- One reader after the other. -/
theorem Reads.bind {r : Reader α} {k : α → Reader β} {follow follow' : List Lexeme → Prop}
    {la lb : List Lexeme} {a : α} {b : β} (ha : r.Reads follow la a)
    (hb : (k a).Reads follow' lb b) (hf : ∀ rest, follow' rest → follow (lb ++ rest)) :
    (r >>= k).Reads follow' (la ++ lb) b := by
  intro rest hr
  rw [List.append_assoc, StateT.run_bind, ha _ (hf rest hr)]
  exact hb rest hr

/-- Items are read one after the other, as long as each may follow the one before it. -/
theorem reads_many (follow : List Lexeme → Prop) {item : Reader α} {items : List α}
    {lexemes : List (List Lexeme)}
    (h : List.Forall₂ (fun a ls => ls ≠ [] ∧ (∀ rest, follow (ls ++ rest)) ∧
      item.Reads follow ls a) items lexemes) :
    (many item).Reads (fun rest => follow rest ∧ item.run rest = none) lexemes.flatten items := by
  intro rest hr
  show some (manyFrom item (lexemes.flatten ++ rest)) = _
  congr 1
  induction h with
  | nil => rw [List.flatten_nil, List.nil_append, manyFrom, hr.2]
  | @cons a ls items lexemes ha hi ih =>
    obtain ⟨some, may, reads⟩ := ha
    have next : follow (lexemes.flatten ++ rest) := by
      cases hi with
      | nil => exact hr.1
      | cons hb _ => simpa using hb.2.1 _
    have shorter : (lexemes.flatten ++ rest).length <
        (ls ++ (lexemes.flatten ++ rest)).length := by
      have := List.length_pos_of_ne_nil some
      simp only [List.length_append]
      omega
    rw [List.flatten_cons, List.append_assoc, manyFrom, reads _ next]
    simp only [if_pos shorter, ih]

theorem reads_separated (follow : List Lexeme → Prop) {separator : Lexeme} {item : Reader α}
    {items : List α} {lexemes : List (List Lexeme)}
    (h : List.Forall₂ (fun a ls => item.Reads follow ls a) items lexemes) (hne : items ≠ [])
    (may : ∀ rest, follow (separator :: rest)) :
    (separated separator item).Reads
      (fun rest => follow rest ∧ rest.head? ≠ some separator) (Lexeme.joined separator lexemes)
      items := by
  cases h with
  | nil => exact absurd rfl hne
  | @cons a ls items lexemes ha hi =>
    let next : Reader α := do expect separator; item
    have others : (many next).Reads (fun rest => follow rest ∧ next.run rest = none)
        (lexemes.flatMap (separator :: ·)) items := by
      rw [List.flatMap_def]
      apply reads_many follow
      rw [List.forall₂_map_right_iff]
      refine hi.imp fun b lb hb => ⟨by simp, fun _ => may _, ?_⟩
      intro rest hr
      simpa [next] using hb rest hr
    have stop : ∀ rest : List Lexeme, rest.head? ≠ some separator → next.run rest = none := by
      intro rest hr
      cases rest with
      | nil => rfl
      | cons l rest =>
        have differs : l ≠ separator := by simpa using hr
        simp [next, differs]
    have rest : (do let others ← many next; return a :: others : Reader (List α)).Reads
        (fun rest => follow rest ∧ rest.head? ≠ some separator)
        (lexemes.flatMap (separator :: ·)) (a :: items) := by
      rw [← List.append_nil (lexemes.flatMap _)]
      exact others.bind (reads_pure _ _) fun rest hr => ⟨hr.1, stop rest hr.2⟩
    refine ha.bind rest fun rest hr => ?_
    cases lexemes with
    | nil => exact hr.1
    | cons lb _ => exact may _

/-! ### Readers that do not look into values -/

section Follows
variable {γ δ : Type} {f : AttributeValue → AttributeValue}

/-- What `r` reads as `a`, `r'` reads as `g a` once the values in it are changed. -/
def Follows (f : AttributeValue → AttributeValue) (g : α → β) (r : Reader α) (r' : Reader β) :
    Prop :=
  ∀ lexemes, r'.run (lexemes.map (Lexeme.mapValue f)) =
    (r.run lexemes).map (Prod.map g (List.map (Lexeme.mapValue f)))

theorem follows_pure (g : α → β) (a : α) : Follows f g (pure a) (pure (g a)) := fun _ => rfl

theorem Follows.bind {g : α → β} {g' : γ → δ} {r : Reader α} {r' : Reader β} {k : α → Reader γ}
    {k' : β → Reader δ} (h : Follows f g r r') (hk : ∀ a, Follows f g' (k a) (k' (g a))) :
    Follows f g' (r >>= k) (r' >>= k') := by
  intro lexemes
  rw [StateT.run_bind, StateT.run_bind, h lexemes]
  cases r.run lexemes with
  | none => rfl
  | some result => exact hk result.1 result.2

theorem Follows.map {g : α → β} {g' : γ → δ} {r : Reader α} {r' : Reader β} {h : α → γ} {h' : β → δ}
    (hr : Follows f g r r') (commutes : ∀ a, h' (g a) = g' (h a)) :
    Follows f g' (h <$> r) (h' <$> r') := by
  rw [map_eq_pure_bind, map_eq_pure_bind]
  refine hr.bind fun a => ?_
  rw [commutes]
  exact follows_pure g' (h a)

theorem Follows.orElse {g : α → β} {r s : Reader α} {r' s' : Reader β} (hr : Follows f g r r')
    (hs : Follows f g s s') : Follows f g (r <|> s) (r' <|> s') := by
  intro lexemes
  rw [run_orElse, run_orElse, hr lexemes, hs lexemes]
  cases r.run lexemes <;> rfl

theorem follows_check {g : α → β} {a : Option α} {b : Option β} (h : b = a.map g) :
    Follows f g (check a) (check b) := by
  intro lexemes
  rw [run_check, run_check, h]
  cases a <;> rfl

theorem follows_one {g : α → β} {pick : Lexeme → Option α} {pick' : Lexeme → Option β}
    (h : ∀ l, pick' (l.mapValue f) = (pick l).map g) : Follows f g (one pick) (one pick') := by
  intro lexemes
  cases lexemes with
  | nil => rfl
  | cons l rest =>
    rw [List.map_cons, run_one_cons, run_one_cons, h]
    cases pick l <;> rfl

/-- Words, signs and marks are what they are. -/
theorem follows_expect {l : Lexeme} (fixed : ∀ found, Lexeme.mapValue f found = l ↔ found = l) :
    Follows f id (expect l) (expect l) := by
  refine follows_one fun found => ?_
  simp only [fixed]
  split <;> rfl

theorem follows_many {g : α → β} {item : Reader α} {item' : Reader β}
    (h : Follows f g item item') : Follows f (List.map g) (many item) (many item') := by
  intro lexemes
  show some _ = some _
  congr 1
  fun_induction manyFrom item lexemes with
  | case1 lexemes stop =>
    rw [manyFrom, h lexemes, stop]
    rfl
  | case2 lexemes a rest found shorter ih =>
    rw [manyFrom, h lexemes, found]
    simp only [Option.map_some, Prod.map_apply, List.length_map, if_pos shorter, ih]
    rfl
  | case3 lexemes a rest found longer =>
    rw [manyFrom, h lexemes, found]
    simp only [Option.map_some, Prod.map_apply, List.length_map, if_neg longer]
    rfl

theorem follows_separated {g : α → β} {separator : Lexeme} {item : Reader α} {item' : Reader β}
    (fixed : ∀ found, Lexeme.mapValue f found = separator ↔ found = separator)
    (h : Follows f g item item') :
    Follows f (List.map g) (separated separator item) (separated separator item') := by
  have next : Follows f g (do expect separator; item) (do expect separator; item') :=
    (follows_expect fixed).bind fun _ => h
  exact h.bind fun a => (follows_many next).bind fun others =>
    follows_pure (List.map g) (a :: others)

theorem Follows.whole {g : α → β} {r : Reader α} {r' : Reader β} (h : Follows f g r r')
    (lexemes : List Lexeme) :
    r'.whole (lexemes.map (Lexeme.mapValue f)) = (r.whole lexemes).map g := by
  rw [Reader.whole, h lexemes, Reader.whole]
  rcases r.run lexemes with _ | ⟨a, _ | ⟨l, rest⟩⟩ <;> rfl

/-- Lexemes that differ in their values alone are read as what differs in its values alone. -/
theorem Follows.map_whole_eq {g : α → α} {r : Reader α} (h : Follows f g r r)
    {lexemes lexemes' : List Lexeme}
    (same : lexemes.map (Lexeme.mapValue f) = lexemes'.map (Lexeme.mapValue f)) :
    (r.whole lexemes).map g = (r.whole lexemes').map g := by
  rw [← h.whole, same, h.whole]

end Follows

end Reader

end TableClient.Grammar
