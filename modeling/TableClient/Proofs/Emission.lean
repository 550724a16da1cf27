import TableClient.Expression.Projection
import TableClient.Proofs.Grammar.Path

/-! Rendering, as what it writes.

Whatever is rendered draws tokens, numbered on from those drawn before, and binds each of them
once (`Scope.Draws`). `Emit.Writes` says of a rendering what it writes, in every sense that
takes these tokens for what they were bound to; its rules follow the way renderings are put
together. -/
namespace TableClient

/-! ### Drawn tokens -/

namespace Scope

/-- The token of the name drawn after as many others. -/
def nameToken (n : Nat) : String := Token.nameSigil.toString ++ "attr" ++ toString n

/-- The token of the value drawn after as many others. -/
def valueToken (n : Nat) : String := Token.valueSigil.toString ++ "val" ++ toString n

/-- Between one scope and another these tokens were drawn and bound, in order. -/
structure Draws (s : Scope) (b : Bindings) (s' : Scope) : Prop where
  names : b.names.map Prod.fst = (List.range' s.names b.names.length).map nameToken
  values : b.values.map Prod.fst = (List.range' s.values b.values.length).map valueToken
  next_names : s'.names = s.names + b.names.length
  next_values : s'.values = s.values + b.values.length

namespace Draws
variable {s s' s'' : Scope} {b b' : Bindings}

theorem refl (s : Scope) : s.Draws {} s := ⟨rfl, rfl, rfl, rfl⟩

theorem append (h : s.Draws b s') (h' : s'.Draws b' s'') : s.Draws (b ++ b') s'' where
  names := by
    rw [Bindings.names_append, List.map_append, h.names, h'.names, h.next_names, ← List.map_append,
      List.range'_append_1, List.length_append]
  values := by
    rw [Bindings.values_append, List.map_append, h.values, h'.values, h.next_values,
      ← List.map_append, List.range'_append_1, List.length_append]
  next_names := by
    rw [h'.next_names, h.next_names, Bindings.names_append, List.length_append, Nat.add_assoc]
  next_values := by
    rw [h'.next_values, h.next_values, Bindings.values_append, List.length_append, Nat.add_assoc]

/-- Drawn tokens are well formed, and no two are the same. -/
theorem proper (h : s.Draws b s') : b.Proper where
  names token member := by
    rw [h.names] at member
    obtain ⟨n, -, rfl⟩ := List.mem_map.1 member
    exact Token.isToken_numbered _ rfl n
  values token member := by
    rw [h.values] at member
    obtain ⟨n, -, rfl⟩ := List.mem_map.1 member
    exact Token.isToken_numbered _ rfl n
  names_distinct := by
    rw [h.names]
    exact (List.nodup_range' _).map (Token.numbered_injective _ _)
  values_distinct := by
    rw [h.values]
    exact (List.nodup_range' _).map (Token.numbered_injective _ _)

end Draws

end Scope

/-- A sense takes bound tokens for what they are bound to. -/
structure Sense.Honors (σ : Sense) (b : Bindings) : Prop where
  name : ∀ token text, (token, text) ∈ b.names → σ.name token = some text
  value : ∀ token v, (token, v) ∈ b.values → σ.value token = some v

theorem Sense.Honors.append {σ : Sense} {b b' : Bindings} (h : σ.Honors (b ++ b')) :
    σ.Honors b ∧ σ.Honors b' :=
  ⟨⟨fun _ _ m => h.name _ _ (List.mem_append_left _ m),
      fun _ _ m => h.value _ _ (List.mem_append_left _ m)⟩,
    ⟨fun _ _ m => h.name _ _ (List.mem_append_right _ m),
      fun _ _ m => h.value _ _ (List.mem_append_right _ m)⟩⟩

/-- The maps that bindings become honor the bindings. -/
theorem Bindings.Proper.honors {b : Bindings} (h : b.Proper) : b.sense.Honors b where
  name _ _ := KeyMap.get?_ofList_of_mem h.names_distinct
  value _ _ := KeyMap.get?_ofList_of_mem h.values_distinct

/-! ### What a rendering writes -/

/-- Two steps succeed if the first does and then the second. -/
theorem ok_of_bind {σ ε α β : Type} {m : ExceptT ε (StateM σ) α} {k : α → ExceptT ε (StateM σ) β}
    {s s' : σ} {b : β} (h : (m >>= k).run.run s = (.ok b, s')) :
    ∃ a between, m.run.run s = (.ok a, between) ∧ (k a).run.run between = (.ok b, s') := by
  rw [ExceptT.run_bind, StateT.run_bind] at h
  rcases run : m.run.run s with ⟨result, between⟩
  rw [run] at h
  cases result with
  | error fault => cases h
  | ok a => exact ⟨a, between, rfl, h⟩

namespace Emit
variable {α β : Type}

/-- If a rendering succeeds, what it writes is so in every sense that honors what it bound. -/
def Writes (m : Emit α) (P : Sense → α → Prop) : Prop :=
  ∀ e a e', m.run.run e = (.ok a, e') →
    ∃ b, e.scope.Draws b e'.scope ∧ e'.bindings = e.bindings ++ b ∧ ∀ σ, σ.Honors b → P σ a

namespace Writes
variable {m : Emit α} {k : α → Emit β} {P : Sense → α → Prop} {Q : Sense → β → Prop}

theorem pure {a : α} (h : ∀ σ, P σ a) : Writes (Pure.pure a) P := by
  intro e a' e' run
  obtain ⟨rfl, rfl⟩ := run
  exact ⟨{}, .refl _, (Bindings.append_empty _).symm, fun σ _ => h σ⟩

theorem throw (fault : ExpressionFault) (P : Sense → α → Prop) :
    Writes (MonadExcept.throw fault) P := by
  intro e a e' run
  cases run

theorem mono {P' : Sense → α → Prop} (h : Writes m P) (hp : ∀ σ a, P σ a → P' σ a) :
    Writes m P' := by
  intro e a e' run
  obtain ⟨b, draws, bindings, holds⟩ := h e a e' run
  exact ⟨b, draws, bindings, fun σ honors => hp σ a (holds σ honors)⟩

/-- What comes after a rendering may use what that one writes. -/
theorem bind (hm : Writes m P) (hk : ∀ a, Writes (k a) fun σ b => P σ a → Q σ b) :
    Writes (m >>= k) Q := by
  intro e b e' run
  obtain ⟨a, between, first, later⟩ := ok_of_bind run
  obtain ⟨drawn, draws, bindings, holds⟩ := hm e a between first
  obtain ⟨drawn', draws', bindings', holds'⟩ := hk a between b e' later
  refine ⟨drawn ++ drawn', draws.append draws', ?_, fun σ honors => ?_⟩
  · rw [bindings', bindings, Bindings.append_assoc]
  · exact holds' σ honors.append.2 (holds σ honors.append.1)

/-- A check before a rendering. -/
theorem guarded {c : Prop} [Decidable c] {fault : ExpressionFault} {next : PUnit → Emit α}
    (h : ¬c → Writes (next ⟨⟩) P) :
    Writes (if c then MonadExcept.throw fault >>= next else next ⟨⟩) P := by
  split
  · intro e a e' run
    cases run
  · next passed => exact h passed

theorem ite {c : Prop} [Decidable c] {m' : Emit α} (h : c → Writes m P) (h' : ¬c → Writes m' P) :
    Writes (if c then m else m') P := by
  split
  · next holds => exact h holds
  · next fails => exact h' fails

end Writes

/-- A name is written as a token that stands for it. -/
theorem writes_name (text : String) :
    Writes (name text) fun σ token => Spells σ token [.name text] := by
  intro e a' e' run
  obtain ⟨rfl, rfl⟩ := run
  refine ⟨⟨[(Scope.nameToken e.scope.names, text)], []⟩, ⟨rfl, rfl, rfl, rfl⟩, ?_, ?_⟩
  · exact congrArg (Bindings.mk _) (List.append_nil _).symm
  · intro σ honors
    exact .name (Token.isToken_numbered _ rfl _) (honors.name _ _ List.mem_cons_self)

/-- A value is written as a token that stands for it. -/
theorem writes_value (v : AttributeValue) :
    Writes (value v) fun σ token => Spells σ token [.value v] := by
  intro e a' e' run
  obtain ⟨rfl, rfl⟩ := run
  refine ⟨⟨[], [(Scope.valueToken e.scope.values, v)]⟩, ⟨rfl, rfl, rfl, rfl⟩, ?_, ?_⟩
  · exact congrArg (Bindings.mk · _) (List.append_nil _).symm
  · intro σ honors
    exact .value (Token.isToken_numbered _ rfl _) (honors.value _ _ List.mem_cons_self)

theorem writes_values (vs : List AttributeValue) :
    Writes (values vs) fun σ tokens =>
      List.Forall₂ (Spells σ) tokens (vs.map fun v => [.value v]) := by
  induction vs with
  | nil => exact .pure fun σ => .nil
  | cons v rest ih =>
    exact (writes_value v).bind fun token => ih.bind fun tokens =>
      .pure fun σ others first => .cons first others

end Emit

/-! ### Fragments -/

namespace Fragment
variable {α : Type}

/-- The bindings made for an expression, none if it came to nothing. -/
def made (f : Option Fragment) : Bindings := (f.map Fragment.bindings).getD {}

/-- In every sense that honors the bindings, the text is read as `a`. -/
def Tells (f : Fragment) (r : Grammar.Reader α) (a : α) : Prop :=
  ∀ σ, σ.Honors f.bindings → ∃ ls, Spells σ f.text ls ∧ r.whole ls = some a

/-- A text is read with the bindings that it comes with. -/
theorem Tells.read {f : Fragment} {r : Grammar.Reader α} {a : α} (h : f.Tells r a)
    (proper : f.bindings.Proper) : r.whole (f.bindings.sense.lexemes f.text.toList) = some a := by
  obtain ⟨ls, spells, read⟩ := h _ proper.honors
  rwa [spells.whole]

end Fragment

namespace Emit

/-- A rendering on its own has drawn what it bound. -/
theorem Writes.alone {α : Type} {render : Emit α} {P : Sense → α → Prop} (h : Writes render P)
    {s : Scope} {e : Emitter} {a : α} (run : render.run.run ⟨s, {}⟩ = (.ok a, e)) :
    s.Draws e.bindings e.scope ∧ ∀ σ, σ.Honors e.bindings → P σ a := by
  obtain ⟨b, draws, bindings, holds⟩ := h _ _ _ run
  obtain rfl : e.bindings = b := bindings
  exact ⟨draws, holds⟩

/-- What comes of an expression of its own. -/
theorem Writes.fragment {render : Emit String} {P : Sense → String → Prop}
    (h : Writes render P) {s s' : Scope} {f : Fragment}
    (run : Emit.fragment render s = (.ok f, s')) :
    s.Draws f.bindings s' ∧ ∀ σ, σ.Honors f.bindings → P σ f.text := by
  unfold Emit.fragment at run
  rcases rendered : render.run.run ⟨s, {}⟩ with ⟨result, e⟩
  rw [rendered] at run
  cases result with
  | error fault => cases run
  | ok text =>
    obtain ⟨written, rfl⟩ := Prod.mk.inj run
    obtain rfl := Except.ok.inj written
    exact h.alone rendered

/-- What comes of an expression that may come to nothing. -/
theorem Writes.fragment? {render : Emit (Option String)} {P : Sense → Option String → Prop}
    (h : Writes render P) {s s' : Scope} {f : Option Fragment}
    (run : Emit.fragment? render s = (.ok f, s')) :
    ∃ b text, s.Draws b s' ∧ f = text.map (Fragment.mk · b) ∧ ∀ σ, σ.Honors b → P σ text := by
  unfold Emit.fragment? at run
  rcases rendered : render.run.run ⟨s, {}⟩ with ⟨result, e⟩
  rw [rendered] at run
  cases result with
  | error fault => cases run
  | ok text =>
    obtain ⟨written, rfl⟩ := Prod.mk.inj run
    obtain rfl := Except.ok.inj written
    obtain ⟨draws, holds⟩ := h.alone rendered
    exact ⟨e.bindings, text, draws, rfl, holds⟩

end Emit

/-! ### Paths -/

namespace Path

theorem writes_emitLater (whole : Path) (later : List Segment) :
    Emit.Writes (emitLater whole later) fun σ text =>
      Spells σ text (later.flatMap Segment.lexemes) ∧ Token.continues text.toList = false := by
  induction later with
  | nil => exact .pure fun σ => ⟨.literal ⟨rfl, rfl, rfl⟩, rfl⟩
  | cons segment rest ih =>
    cases segment with
    | name text =>
      unfold emitLater
      dsimp only
      apply Emit.Writes.guarded
      intro _
      refine (Emit.writes_name text).bind fun token => ih.bind fun more => .pure ?_
      intro σ later named
      obtain ⟨others, begins⟩ := later
      have point : IsJoint "." [.mark '.'] := ⟨⟨rfl, rfl, rfl⟩, rfl⟩
      refine ⟨(Spells.after point.toIsLiteral named).append others begins, ?_⟩
      rw [String.append_assoc]
      exact point.not_continues_append _
    | index n =>
      refine ih.bind fun more => .pure ?_
      intro σ later
      obtain ⟨others, begins⟩ := later
      have index := isJoint_index n
      exact ⟨(Spells.literal index.toIsLiteral).append others begins,
        index.not_continues_append _⟩

/-- A path that is rendered begins with a name, and its text is read as its lexemes. -/
theorem writes_emit (p : Path) :
    Emit.Writes p.emit fun σ text => p.IsRooted ∧ Spells σ text p.lexemes := by
  obtain ⟨segments⟩ := p
  unfold emit
  match segments with
  | [] => exact .throw _ _
  | .index _ :: _ => exact .throw _ _
  | .name first :: later =>
    dsimp only
    apply Emit.Writes.guarded
    intro _
    refine (Emit.writes_name first).bind fun token => (writes_emitLater _ later).bind fun more => ?_
    refine .pure ?_
    intro σ later named
    obtain ⟨others, begins⟩ := later
    exact ⟨⟨first, later, rfl⟩, named.append others begins⟩

/-- Paths that are rendered in order. -/
theorem writes_emitAll (ps : List Path) :
    Emit.Writes (emitAll ps) fun σ texts =>
      (∀ p ∈ ps, p.IsRooted) ∧ List.Forall₂ (Spells σ) texts (ps.map lexemes) := by
  induction ps with
  | nil => exact .pure fun σ => ⟨by simp, .nil⟩
  | cons p rest ih =>
    refine (writes_emit p).bind fun text => ih.bind fun texts => .pure ?_
    intro σ later here
    obtain ⟨rooted, others⟩ := later
    obtain ⟨first, spells⟩ := here
    exact ⟨List.forall_mem_cons.2 ⟨first, rooted⟩, .cons spells others⟩

/-- What a projection is to say: each path once, nothing if there are none. -/
def meaning (ps : List Path) : Option (List Path) := if ps = [] then none else some ps.eraseDups

/-- The distinct paths are what the text of a projection says. -/
theorem compileAll_tells {ps : List Path} {s s' : Scope} {f : Option Fragment}
    (h : compileAll ps s = (.ok f, s')) :
    s.Draws (Fragment.made f) s' ∧
      Option.Rel (fun f said => f.Tells Grammar.projection said) f (meaning ps) := by
  unfold compileAll at h
  cases ps with
  | nil =>
    obtain ⟨nothing, rfl⟩ := Prod.mk.inj h
    obtain rfl := Except.ok.inj nothing
    exact ⟨.refl s, .none⟩
  | cons p rest =>
    have some : (p :: rest).eraseDups ≠ [] := by simp [List.eraseDups_cons]
    rw [meaning, if_neg (List.cons_ne_nil p rest)]
    generalize (p :: rest).eraseDups = distinct at h some
    obtain ⟨first, others, rfl⟩ := List.exists_cons_of_ne_nil some
    have writes : Emit.Writes (do
        return Option.some (String.intercalate ", " (← emitAll (first :: others)))) fun σ text =>
          ∃ written, text = Option.some written ∧ (∀ p ∈ first :: others, p.IsRooted) ∧
            Spells σ written (Lexeme.joined (.mark ',') ((first :: others).map lexemes)) := by
      refine (writes_emitAll _).bind fun texts => .pure ?_
      intro σ written
      obtain ⟨rooted, spells⟩ := written
      exact ⟨_, rfl, rooted, .intercalate isJoint_comma spells⟩
    obtain ⟨b, text, draws, rfl, holds⟩ := writes.fragment? h
    obtain ⟨written, rfl, -, -⟩ := holds _ draws.proper.honors
    refine ⟨draws, .some fun σ honors => ?_⟩
    obtain ⟨_, same, rooted, spells⟩ := holds σ honors
    obtain rfl := Option.some.inj same
    exact ⟨_, spells, (Grammar.reads_projection rooted (by simp)).whole
      (by simp [Grammar.PathEnds])⟩

end Path

end TableClient
