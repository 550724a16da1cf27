import TableClient.Proofs.Emission
import TableClient.Proofs.Grammar.Condition

/-! A compiled condition says what it was compiled from.

Each rendering writes the lexemes of its condition (`writes_emit`), and these are read back as
the condition. So the text of a compiled condition, with its tokens taken for what they were
bound to, is read as the condition without its empty groups, whatever tokens had been drawn
before (`compile_reads`). -/
namespace TableClient.Condition

/-! ### What the rendering of a condition writes -/

/-- An operand is written in parentheses if it is composite. -/
theorem spells_operand {σ : Sense} {c : Condition} {text : String} {ls : List Lexeme}
    (h : Spells σ text ls) : Spells σ (c.operand text) (c.enclosed ls) := by
  unfold operand enclosed
  split
  · have opens : IsLiteral "(" [.mark '('] := ⟨rfl, rfl, rfl⟩
    exact (Spells.after opens h).close isJoint_close
  · exact h

/-- Operands that are rendered in order. -/
theorem writes_emitOperands {conditions : List Condition}
    (members : ∀ c ∈ conditions,
      Emit.Writes c.emit fun σ text => c.Readable ∧ Spells σ text c.lexemes) :
    Emit.Writes (emitOperands conditions) fun σ texts =>
      (∀ c ∈ conditions, c.Readable) ∧
        List.Forall₂ (Spells σ) texts (operandLexemes conditions) := by
  induction conditions with
  | nil => exact .pure fun σ => ⟨by simp, .nil⟩
  | cons c rest ih =>
    refine (members c List.mem_cons_self).bind fun text => ?_
    refine (ih fun d hd => members d (List.mem_cons_of_mem c hd)).bind fun texts => .pure ?_
    intro σ later here
    obtain ⟨readable, others⟩ := later
    obtain ⟨first, spells⟩ := here
    exact ⟨List.forall_mem_cons.2 ⟨first, readable⟩, .cons (spells_operand spells) others⟩

theorem isJoint_and : IsJoint " AND " [.keyword "AND"] := ⟨⟨rfl, rfl, rfl⟩, rfl⟩

theorem isJoint_or : IsJoint " OR " [.keyword "OR"] := ⟨⟨rfl, rfl, rfl⟩, rfl⟩

theorem isJoint_symbol (op : Comparison) :
    IsJoint (" " ++ op.symbol ++ " ") [.sign op.symbol.toList] := by
  cases op <;> exact ⟨⟨rfl, rfl, rfl⟩, rfl⟩

/-- What the rendering of a test writes. -/
theorem writes_emit_leaf {c : Condition} (leaf : c.isComposite = false) :
    Emit.Writes c.emit fun σ text => c.Readable ∧ Spells σ text c.lexemes := by
  cases c with
  | compare op p v =>
    refine p.writes_emit.bind fun pt => (Emit.writes_value v).bind fun vt => .pure ?_
    intro σ value target
    obtain ⟨rooted, path⟩ := target
    refine ⟨.compare op v rooted, ?_⟩
    simpa only [lexemes, String.append_assoc] using path.join (isJoint_symbol op) value
  | between p low high =>
    refine p.writes_emit.bind fun pt => (Emit.writes_value low).bind fun lt => ?_
    refine (Emit.writes_value high).bind fun ht => .pure ?_
    intro σ last first target
    obtain ⟨rooted, path⟩ := target
    refine ⟨.between low high rooted, ?_⟩
    have between : IsJoint " BETWEEN " [.keyword "BETWEEN"] := ⟨⟨rfl, rfl, rfl⟩, rfl⟩
    exact (path.join between first).join isJoint_and last
  | isIn p candidates =>
    unfold emit
    dsimp only
    apply Emit.Writes.guarded
    intro some
    refine p.writes_emit.bind fun pt => (Emit.writes_values candidates).bind fun vts => .pure ?_
    intro σ values target
    obtain ⟨rooted, path⟩ := target
    refine ⟨.isIn rooted (by simpa using some), ?_⟩
    have among : IsJoint " IN (" [.keyword "IN", .mark '('] := ⟨⟨rfl, rfl, rfl⟩, rfl⟩
    exact (path.join among (Spells.intercalate isJoint_comma values)).close isJoint_close
  | test function p arguments =>
    refine p.writes_emit.bind fun pt => (Emit.writes_values arguments).bind fun vts => .pure ?_
    intro σ values target
    obtain ⟨rooted, path⟩ := target
    refine ⟨.test function arguments rooted, ?_⟩
    have opens : IsLiteral (function.name ++ "(") [.keyword function.name, .mark '('] := by
      cases function <;> exact ⟨rfl, rfl, rfl⟩
    have called := Spells.after opens (Spells.intercalate isJoint_comma (.cons path values))
    exact called.close isJoint_close
  | size op p v =>
    refine p.writes_emit.bind fun pt => (Emit.writes_value v).bind fun vt => .pure ?_
    intro σ value target
    obtain ⟨rooted, path⟩ := target
    refine ⟨.size op v rooted, ?_⟩
    have closes : IsJoint (") " ++ op.symbol ++ " ") [.mark ')', .sign op.symbol.toList] := by
      cases op <;> exact ⟨⟨rfl, rfl, rfl⟩, rfl⟩
    have sized : Spells σ ("size(" ++ pt) ([.keyword "size", .mark '('] ++ p.lexemes) :=
      .after ⟨rfl, rfl, rfl⟩ path
    simpa only [lexemes, String.append_assoc] using sized.join closes value
  | all | any | not => simp [isComposite] at leaf

/-- What the rendering of a condition writes. -/
theorem writes_emit {c : Condition} (h : c.IsPruned) :
    Emit.Writes c.emit fun σ text => c.Readable ∧ Spells σ text c.lexemes := by
  induction h with
  | leaf h => exact writes_emit_leaf h
  | all several _ ih =>
    refine (writes_emitOperands ih).bind fun texts => .pure ?_
    intro σ written
    obtain ⟨readable, spells⟩ := written
    exact ⟨.all several readable, Spells.intercalate isJoint_and spells⟩
  | any several _ ih =>
    refine (writes_emitOperands ih).bind fun texts => .pure ?_
    intro σ written
    obtain ⟨readable, spells⟩ := written
    exact ⟨.any several readable, Spells.intercalate isJoint_or spells⟩
  | not _ ih =>
    refine ih.bind fun text => .pure ?_
    intro σ written
    obtain ⟨readable, spells⟩ := written
    exact ⟨.not readable, Spells.after ⟨rfl, rfl, rfl⟩ (spells_operand spells)⟩

/-! ### Compiling -/

/-- What pruning leaves of a condition is what its text says. -/
theorem compile_tells {t : Condition} {s s' : Scope} {f : Option Fragment}
    (h : t.compile s = (.ok f, s')) :
    s.Draws (Fragment.made f) s' ∧
      Option.Rel (fun f kept => f.Tells Grammar.condition kept) f t.prune := by
  unfold compile at h
  cases pruned : t.prune with
  | none =>
    rw [pruned] at h
    obtain ⟨nothing, rfl⟩ := Prod.mk.inj h
    obtain rfl := Except.ok.inj nothing
    exact ⟨.refl s, .none⟩
  | some kept =>
    rw [pruned] at h
    rcases rendered : Emit.fragment kept.emit s with ⟨result, scope⟩
    simp only [rendered] at h
    cases result with
    | error fault => cases h
    | ok fragment =>
      obtain ⟨written, rfl⟩ := Prod.mk.inj h
      obtain rfl := Except.ok.inj written
      obtain ⟨draws, holds⟩ := (writes_emit (isPruned_of_prune pruned)).fragment rendered
      refine ⟨draws, .some fun σ honors => ?_⟩
      obtain ⟨readable, spells⟩ := holds σ honors
      exact ⟨_, spells,
        (Grammar.reads_condition readable).whole (by simp [Grammar.GroupEnds])⟩

/-- **A compiled condition says what is left of it after pruning**, with the same groups,
children, operators, paths and values. So conditions that differ once pruned differ in their
text or in what its tokens stand for. -/
theorem compile_reads {t : Condition} {s s' : Scope} {f : Fragment}
    (h : t.compile s = (.ok (some f), s')) :
    (∃ kept, t.prune = some kept ∧ f.bindings.sense.condition? f.text = some kept) ∧
    ∀ (u : Condition) (r r' : Scope), u.compile r = (.ok (some f), r') → u.prune = t.prune := by
  have reads {t : Condition} {s s' : Scope} (h : t.compile s = (.ok (some f), s')) :
      ∃ kept, t.prune = some kept ∧ f.bindings.sense.condition? f.text = some kept := by
    obtain ⟨draws, tells⟩ := compile_tells h
    generalize t.prune = pruned at tells
    cases tells with
    | some tells => exact ⟨_, rfl, tells.read draws.proper⟩
  refine ⟨reads h, fun u r r' h' => ?_⟩
  obtain ⟨kept, pruned, said⟩ := reads h
  obtain ⟨kept', pruned', said'⟩ := reads h'
  rw [pruned, pruned', ← said, said']

/-- The word between the bounds of a range does not end the disjunction it stands in. -/
theorem compile_reads_range :
    let t := Condition.all [
      .any [.compare .lt ⟨[.name "a", .index 10]⟩ (.number "1"), .all []],
      .any [.between ⟨[.name "b"]⟩ (.number "1") (.number "9"), .not (.exists? ⟨[.name "a"]⟩)]]
    let f : Fragment := ⟨"#attr0[10] < :val0 AND (#attr1 BETWEEN :val1 AND :val2 OR " ++
        "(NOT attribute_exists(#attr2)))",
      ⟨[("#attr0", "a"), ("#attr1", "b"), ("#attr2", "a")],
        [(":val0", .number "1"), (":val1", .number "1"), (":val2", .number "9")]⟩⟩
    t.compile {} = (.ok (some f), ⟨3, 3⟩) ∧
      (∃ kept, t.prune = some kept ∧ f.bindings.sense.condition? f.text = some kept) ∧
      ∀ (u : Condition) (r r' : Scope), u.compile r = (.ok (some f), r') → u.prune = t.prune := by
  intro t f
  have compiled : t.compile {} = (.ok (some f), ⟨3, 3⟩) := by rfl
  exact ⟨compiled, compile_reads compiled⟩

end TableClient.Condition
