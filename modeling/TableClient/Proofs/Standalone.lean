import TableClient.Proofs.Closed

/-! Parts of transactions and calls that stand alone.

A part of a transaction is made from the parameters from which the call that stands alone makes its
request, so the one cannot be made where the other cannot, for the same reason. Narrowing keeps
what an entry has a place for, and reads off the mode of the call what comes back where a condition
does not hold. So the entry holds the fields of the request and that mode, whatever else stands in
the transaction (`transactions_agree`). -/
namespace TableClient

/-- Two outcomes agree: the same failure, or results that are related. -/
inductive Outcome.Agree {α β : Type} (R : α → β → Prop) : Outcome α → Outcome β → Prop where
  | failed (e : Failure) : Agree R (.error e) (.error e)
  | made {a : α} {b : β} (h : R a b) : Agree R (.ok a) (.ok b)

/-- What is made of one outcome in two ways agrees if the two ways do. -/
theorem Outcome.agree_of_both {α β γ : Type} {R : α → β → Prop} {x : Outcome γ} {f : γ → α}
    {g : γ → β} (h : ∀ c, x = .ok c → R (f c) (g c)) :
    Agree R (do return f (← x)) (do return g (← x)) := by
  cases x with
  | error e => exact .failed e
  | ok c => exact .made (h c rfl)

/-! ### Entries -/

/-- A part comes to an entry, alone and at its place among others. -/
structure ComesTo {α ρ ε : Type} (compose : List α → Outcome ρ) (entries : ρ → List ε) (part : α)
    (entry : ε) : Prop where
  alone : ∃ request, compose [part] = .ok request ∧ entries request = [entry]
  among : ∀ earlier later request, compose (earlier ++ part :: later) = .ok request →
    (entries request)[earlier.length]? = some entry

/-- Whatever the settings of the transaction, a part of a write comes to an entry. -/
def TransactAction.Writes (a : TransactAction) (entry : TransactWrite.Entry) : Prop :=
  ∀ (o : TransactWriteOptions) (fresh : String),
    ComesTo (o.compose · fresh) TransactWrite.Request.entries a entry

/-- Whatever the settings of the transaction, a part of a read comes to an entry. -/
def TransactRead.Reads (r : TransactRead) (entry : TransactGet.Entry) : Prop :=
  ∀ reportCapacity : Option CapacityReport,
    ComesTo (compose · reportCapacity) TransactGet.Request.entries r entry

theorem TransactAction.writes_of_entry {a : TransactAction} {entry : TransactWrite.Entry}
    (h : a.entry = .ok entry) : a.Writes entry := by
  intro o fresh
  constructor
  · have made : [a].mapM TransactAction.entry = .ok [entry] :=
      mapM_eq_ok_iff_forall₂.2 (.cons h .nil)
    refine ⟨⟨[entry], some (o.token.getD fresh), o.reportCapacity, o.reportMetrics⟩, ?_, rfl⟩
    unfold TransactWriteOptions.compose
    rw [made]
    rfl
  · intro earlier later request composed
    obtain ⟨_, -, composed⟩ := exists_of_bind_eq_ok composed
    obtain ⟨entries, made, composed⟩ := exists_of_bind_eq_ok composed
    cases composed
    rw [mapM_eq_ok_iff_forall₂] at made
    have here : earlier.length < (earlier ++ a :: later).length := by simp
    have there : earlier.length < entries.length := made.length_eq ▸ here
    have own := made.get here there
    rw [List.get_eq_getElem, List.getElem_append_right (Nat.le_refl _)] at own
    simp only [Nat.sub_self, List.getElem_cons_zero, h] at own
    rw [List.getElem?_eq_getElem there, Except.ok.inj own]
    rfl

theorem TransactRead.reads_entry (r : TransactRead) : r.Reads r.entry := by
  intro reportCapacity
  constructor
  · exact ⟨_, rfl, rfl⟩
  · intro earlier later request composed
    obtain ⟨_, -, composed⟩ := exists_of_bind_eq_ok composed
    cases composed
    simp

/-! ### What comes back where a condition does not hold -/

/-- What comes back of an item whose condition does not hold, by what a write is to return. -/
structure ReturnedOnFailure (mode : Option ReturnValue) (onFailure : Option FailureReturn) :
    Prop where
  unset : onFailure = none ↔ mode = none
  whole : onFailure = some .allOld ↔ mode = some .allOld ∨ mode = some .allNew
  nothing : onFailure = some .none ↔
    mode = some .none ∨ mode = some .updatedOld ∨ mode = some .updatedNew

theorem returnedOnFailure (mode : Option ReturnValue) :
    ReturnedOnFailure mode (mode.map TransactAction.onFailure) := by
  cases mode with
  | none => constructor <;> decide
  | some mode => cases mode <;> constructor <;> decide

/-- Assembly leaves what a write is to return. -/
theorem Parameters.returnValues_of_assemble {p q : Parameters} {e : ExpressionSet}
    (h : p.assemble e = .ok q) : q.returnValues = p.returnValues := by
  obtain ⟨r, -, rfl⟩ := assemble_ok h
  rw [forIndex_eq]
  rfl

/-! ### Parts and requests -/

/-- A part that writes an item, and the request that does so alone. -/
def PutOptions.Agrees (o : PutOptions) (a : TransactAction) (alone : Pending PutItem.Request) :
    Prop :=
  ∃ onFailure, ReturnedOnFailure o.returnValues onFailure ∧
    a.Writes
      { put := some
          { table := alone.request.table
            item := alone.request.item
            condition := alone.request.condition
            names := alone.request.names
            values := alone.request.values
            onFailure } }

/-- A part that deletes an item, and the request that does so alone. -/
def DeleteOptions.Agrees (o : DeleteOptions) (a : TransactAction)
    (alone : Pending DeleteItem.Request) : Prop :=
  ∃ onFailure, ReturnedOnFailure o.returnValues onFailure ∧
    a.Writes
      { delete := some
          { table := alone.request.table
            key := alone.request.key
            condition := alone.request.condition
            names := alone.request.names
            values := alone.request.values
            onFailure } }

/-- A part that changes an item, and the request that does so alone, where an action changes
anything at all. -/
def UpdateOptions.Agrees (o : UpdateOptions) (a : TransactAction)
    (alone : Pending UpdateItem.Request) : Prop :=
  (∃ action ∈ o.actions, action.survives = true) →
    ∃ update onFailure, alone.request.update = some update ∧
      ReturnedOnFailure o.returnValues onFailure ∧
      a.Writes
        { update := some
            { table := alone.request.table
              key := alone.request.key
              update
              condition := alone.request.condition
              names := alone.request.names
              values := alone.request.values
              onFailure } }

/-- A part that reads an item, and the request that does so alone. -/
def GetOptions.Agrees (r : TransactRead) (alone : Pending GetItem.Request) : Prop :=
  r.Reads
    { get :=
        { table := alone.request.table
          key := alone.request.key
          projection := alone.request.projection
          names := alone.request.names } }

theorem PutOptions.agree (o : PutOptions) (table : String) (item : Item) :
    Outcome.Agree o.Agrees (TransactAction.put table item o) (o.finalize table item) := by
  refine Outcome.agree_of_both fun p made => ?_
  have kept : p.returnValues = o.returnValues := by
    unfold parameters at made
    split at made
    · cases made
    · exact Parameters.returnValues_of_assemble made
  refine ⟨_, returnedOnFailure o.returnValues, TransactAction.writes_of_entry ?_⟩
  rw [← kept]
  rfl

theorem DeleteOptions.agree (o : DeleteOptions) (table : String) (key : Key) :
    Outcome.Agree o.Agrees (TransactAction.delete table key o) (o.finalize table key) := by
  refine Outcome.agree_of_both fun p made => ?_
  obtain ⟨_, -, made⟩ := exists_of_bind_eq_ok made
  have kept : p.returnValues = o.returnValues := Parameters.returnValues_of_assemble made
  refine ⟨_, returnedOnFailure o.returnValues, TransactAction.writes_of_entry ?_⟩
  rw [← kept]
  rfl

/-- Where an action changes anything, there is a text that says so. -/
theorem Parameters.exists_update {p q : Parameters} {e : ExpressionSet} (h : p.assemble e = .ok q)
    (moves : ∃ action ∈ e.updates, action.survives = true) : ∃ update, q.update = some update := by
  obtain ⟨r, compiled, overlaid⟩ := overlaid_of_assemble h
  have update := (ExpressionSet.renders_of_compile compiled).update
  have meant : UpdateAction.meaning e.updates = some (UpdateAction.grouped e.updates) := by
    apply if_neg
    intro none
    obtain ⟨action, member, survives⟩ := moves
    exact List.ne_nil_of_mem (List.mem_filter.2 ⟨member, survives⟩) none
  rw [meant] at update
  cases hr : r.update with
  | none =>
    rw [hr] at update
    cases update
  | some fragment =>
    rw [overlaid.update, Expressions.texts, hr]
    exact ⟨_, rfl⟩

theorem UpdateOptions.agree (o : UpdateOptions) (table : String) (key : Key) :
    Outcome.Agree o.Agrees (TransactAction.update table key o) (o.finalize table key) := by
  refine Outcome.agree_of_both fun p made moves => ?_
  obtain ⟨_, -, made⟩ := exists_of_bind_eq_ok made
  have kept : p.returnValues = o.returnValues := Parameters.returnValues_of_assemble made
  obtain ⟨update, written⟩ := Parameters.exists_update made moves
  refine ⟨update, _, written, returnedOnFailure o.returnValues,
    TransactAction.writes_of_entry ?_⟩
  rw [← kept]
  unfold TransactAction.entry
  dsimp only [TransactAction.narrowed]
  split
  · next missing => cases written.symm.trans missing
  · next text present =>
    obtain rfl : update = text := Option.some.inj (written.symm.trans present)
    rfl

theorem GetOptions.agree (o : GetOptions) (table : String) (key : Key) :
    Outcome.Agree GetOptions.Agrees (TransactRead.get table key o) (o.finalize table key) :=
  Outcome.agree_of_both fun _ _ => TransactRead.reads_entry _

/-- **A part of a transaction and the call that stands alone agree.** The one cannot be made exactly
where the other cannot, for the same reason. Otherwise the part comes to an entry of its kind alone,
whatever else stands in the transaction, with the table, the key or item, the texts and the bindings
of the request, and with nothing else but what comes back where a condition does not hold. -/
theorem transactions_agree (table : String) :
    (∀ (item : Item) (o : PutOptions),
      Outcome.Agree o.Agrees (TransactAction.put table item o) (o.finalize table item)) ∧
    (∀ (key : Key) (o : UpdateOptions),
      Outcome.Agree o.Agrees (TransactAction.update table key o) (o.finalize table key)) ∧
    (∀ (key : Key) (o : DeleteOptions),
      Outcome.Agree o.Agrees (TransactAction.delete table key o) (o.finalize table key)) ∧
    ∀ (key : Key) (o : GetOptions),
      Outcome.Agree GetOptions.Agrees (TransactRead.get table key o) (o.finalize table key) :=
  ⟨fun item o => o.agree table item, fun key o => o.agree table key,
    fun key o => o.agree table key, fun key o => o.agree table key⟩

/-- A change with a condition that asks for what it changed, and wishes for reports that an entry
has no place for. -/
theorem transactions_agree_update :
    let key : Key := .ofList [("k", .text "1")]
    let o : UpdateOptions :=
      { conditions := [.compare .lt ⟨[.name "n"]⟩ (.number "9")]
        returnValues := some .updatedNew
        reportCapacity := some .total
        actions := [.add ⟨[.name "s"]⟩ (.textSet []), .increment ⟨[.name "n"]⟩ (.number "1")] }
    ∃ a, TransactAction.update "t" key o = .ok a ∧
      a.Writes
        { update := some
            { table := "t"
              key
              update := "SET #n0 = if_not_exists(#n0, :v1) + :v2"
              condition := some "#n0 < :v0"
              names := .ofList [("#n0", "n")]
              values := .ofList
                [(":v0", .number "9"), (":v1", .number "0"), (":v2", .number "1")]
              onFailure := some .none } } := by
  intro key o
  let p : Parameters :=
    { table := "t"
      key
      condition := some "#n0 < :v0"
      update := some "SET #n0 = if_not_exists(#n0, :v1) + :v2"
      names := .ofList [("#n0", "n")]
      values := .ofList [(":v0", .number "9"), (":v1", .number "0"), (":v2", .number "1")]
      returnValues := some .updatedNew
      reportCapacity := some .total }
  have parameters : o.parameters "t" key = .ok p := by decide +kernel
  have alone : o.finalize "t" key = .ok { request := p.toUpdateItem } := by
    rw [UpdateOptions.finalize, parameters]
    rfl
  have part : TransactAction.update "t" key o = .ok (.narrowed .update p) := by
    rw [TransactAction.update, parameters]
    rfl
  refine ⟨_, part, ?_⟩
  have agree := (transactions_agree "t").2.1 key o
  rw [part, alone] at agree
  cases agree with
  | made h =>
    obtain ⟨update, onFailure, text, returned, writes⟩ :=
      h ⟨.increment ⟨[.name "n"]⟩ (.number "1"), by simp [o], rfl⟩
    obtain rfl := Option.some.inj text
    obtain rfl := returned.nothing.2 (.inr (.inr rfl))
    exact writes

end TableClient
