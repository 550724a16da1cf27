import TableClient.Proofs.Preset
import TableClient.Proofs.Standalone

/-! Which parts make a transaction.

A part is made before it is known whether a transaction takes it. What it is made from decides that:
a check is taken if pruning leaves something of its condition, an update if one of its actions
changes anything, for then and only then there is a text (`WritePart.error?_entry`). The number of
parts comes before all of them. So a write is put together exactly from one to twenty-five parts
that are all taken, and otherwise the number is what is wrong, or else the first part that is not
(`transaction_composed`). Its entries are of the kinds of the parts, in their order, and say what
the parts say. -/
namespace TableClient

/-! ### Assembled parameters -/

namespace Carried

/-- What tokens stand for in the maps beside the texts. -/
def sense (c : Carried) : Sense := ⟨c.names.get?, c.values.get?⟩

end Carried

namespace Parameters

/-- A text is there exactly if something is meant. -/
theorem Carries.eq_none_iff {α : Type} {read : String → Option α} {same : α → α → Prop}
    {field : Option String} {meaning : Option α} (h : Carries read same field meaning) :
    field = none ↔ meaning = none := by
  cases h with
  | some said => exact ⟨nofun, nofun⟩
  | none => exact ⟨fun _ => rfl, fun _ => rfl⟩

/-- Where nothing was said before, a field says what is to be said. -/
theorem Amends.carries {α : Type} {read : String → Option α} {same : α → α → Prop}
    {field : Option String} {meaning : Option α} (h : Amends read same none field meaning) :
    Carries read same field meaning := by
  cases h with
  | left => exact .none
  | set read agrees => exact .some ⟨_, read, agrees⟩

/-- Parameters `q` come of `p` by saying what a set of expressions says. -/
structure MadeFrom (p : Parameters) (e : ExpressionSet) (q : Parameters) : Prop where
  table : q.table = p.table
  key : q.key = p.key
  item : q.item = p.item
  returnValues : q.returnValues = p.returnValues
  projection : Carries q.sense.projection? Eq q.projection (Path.meaning e.projection)
  condition : Carries q.sense.condition? Condition.SameAs q.condition
    (Condition.all e.conditions).prune
  update : Carries q.sense.update? (List.Forall₂ UpdateAction.SameAs) q.update
    (UpdateAction.meaning e.updates)

theorem madeFrom_of_assemble {p q : Parameters} {e : ExpressionSet} (blank : p.IsBlank)
    (h : p.assemble e = .ok q) : p.MadeFrom e q := by
  obtain ⟨r, compiled, overlaid⟩ := overlaid_of_assemble h
  have rendered := ExpressionSet.renders_of_compile compiled
  have kept : q.table = p.table ∧ q.key = p.key ∧ q.item = p.item ∧
      q.returnValues = p.returnValues := by
    obtain ⟨r, -, rfl⟩ := assemble_ok h
    rw [forIndex_eq]
    exact ⟨rfl, rfl, rfl, rfl⟩
  obtain ⟨table, key, item, returnValues⟩ := kept
  refine ⟨table, key, item, returnValues, ?_, ?_, ?_⟩
  · exact (overlaid.amends rendered (Grammar.follows_projection _) (fun _ _ equal => equal)
      (by simp [Expressions.toList]) rendered.projection
      (blank.projection ▸ overlaid.projection)).carries
  · exact (overlaid.amends rendered (Grammar.follows_condition _) (fun _ _ equal => equal)
      (by simp [Expressions.toList]) rendered.condition
      (blank.condition ▸ overlaid.condition)).carries
  · exact (overlaid.amends rendered Grammar.follows_update
      (fun _ _ equal => map_eq_map_iff_forall₂.1 equal) (by simp [Expressions.toList])
      rendered.update (blank.update ▸ overlaid.update)).carries

end Parameters

/-! ### Parts of a write -/

namespace TransactAction

/-- What narrowed parameters come to as a check. -/
theorem entry_check (p : Parameters) :
    (narrowed .check p).entry =
      match p.condition with
      | none => .error (.rejected .checkWithoutCondition)
      | some condition =>
        .ok { check := some { p with condition, onFailure := p.returnValues.map onFailure } } := rfl

/-- What narrowed parameters come to as an update. -/
theorem entry_update (p : Parameters) :
    (narrowed .update p).entry =
      match p.update with
      | none => .error (.rejected .updateWithoutAction)
      | some update =>
        .ok { update := some { p with update, onFailure := p.returnValues.map onFailure } } := rfl

end TransactAction

/-- A part of a write, as it is described. -/
inductive WritePart where
  | check (table : String) (key : Key) (condition : Condition)
  | put (table : String) (item : Item) (o : PutOptions)
  | update (table : String) (key : Key) (o : UpdateOptions)
  | delete (table : String) (key : Key) (o : DeleteOptions)

namespace WritePart

/-- Makes a part. -/
def make : WritePart → Outcome TransactAction
  | .check table key condition => TransactAction.check table key condition
  | .put table item o => TransactAction.put table item o
  | .update table key o => TransactAction.update table key o
  | .delete table key o => TransactAction.delete table key o

/-- A part has something to say where an entry of its kind has to: a check a condition, an update an
action that changes anything. -/
def IsWellFormed : WritePart → Prop
  | .check _ _ condition => condition.prune ≠ none
  | .update _ _ o => ∃ a ∈ o.actions, a.survives = true
  | .put .. | .delete .. => True

/-- Why a transaction does not take a part. -/
def refusal? : WritePart → Option Rejection
  | .check _ _ condition => if condition.prune.isNone then some .checkWithoutCondition else none
  | .update _ _ o =>
    if o.actions.any UpdateAction.survives then none else some .updateWithoutAction
  | .put .. | .delete .. => none

theorem refusal?_eq_none_iff {part : WritePart} : part.refusal? = none ↔ part.IsWellFormed := by
  cases part <;> simp [refusal?, IsWellFormed]

/-- An entry is of the kind of a part, about the same item, and says what the part says. -/
inductive Fills : WritePart → TransactWrite.Entry → Prop where
  | check {table : String} {key : Key} {c : Condition} {x : TransactWrite.Check}
      (place : x.table = table ∧ x.key = key)
      (condition : Parameters.Carries x.carried.sense.condition? Condition.SameAs (some x.condition)
        c.prune)
      (returned : x.onFailure = none) : Fills (.check table key c) { check := some x }
  | put {table : String} {item : Item} {o : PutOptions} {x : TransactWrite.Put}
      (place : x.table = table ∧ x.item = item)
      (condition : Parameters.Carries x.carried.sense.condition? Condition.SameAs x.condition
        (Condition.all o.conditions).prune)
      (returned : ReturnedOnFailure o.returnValues x.onFailure) :
      Fills (.put table item o) { put := some x }
  | update {table : String} {key : Key} {o : UpdateOptions} {x : TransactWrite.Update}
      (place : x.table = table ∧ x.key = key)
      (condition : Parameters.Carries x.carried.sense.condition? Condition.SameAs x.condition
        (Condition.all o.conditions).prune)
      (update : Parameters.Carries x.carried.sense.update? (List.Forall₂ UpdateAction.SameAs)
        (some x.update) (UpdateAction.meaning o.actions))
      (returned : ReturnedOnFailure o.returnValues x.onFailure) :
      Fills (.update table key o) { update := some x }
  | delete {table : String} {key : Key} {o : DeleteOptions} {x : TransactWrite.Delete}
      (place : x.table = table ∧ x.key = key)
      (condition : Parameters.Carries x.carried.sense.condition? Condition.SameAs x.condition
        (Condition.all o.conditions).prune)
      (returned : ReturnedOnFailure o.returnValues x.onFailure) :
      Fills (.delete table key o) { delete := some x }

/-! The parameters that a part is made from. -/

theorem made_check {table : String} {key : Key} {c : Condition} {a : TransactAction}
    (h : make (.check table key c) = .ok a) :
    ∃ q, a = .narrowed .check q ∧
      Parameters.MadeFrom { table, key } { conditions := [c] } q := by
  unfold make TransactAction.check at h
  obtain ⟨_, -, h⟩ := exists_of_bind_eq_ok h
  obtain ⟨q, hq, h⟩ := exists_of_bind_eq_ok h
  cases h
  exact ⟨q, rfl, Parameters.madeFrom_of_assemble ⟨rfl, rfl, rfl, rfl, rfl, rfl, rfl⟩ hq⟩

theorem made_put {table : String} {item : Item} {o : PutOptions} {a : TransactAction}
    (h : make (.put table item o) = .ok a) :
    ∃ q, a = .narrowed .put q ∧
      Parameters.MadeFrom (o.report { table, item }) { conditions := o.conditions } q := by
  unfold make TransactAction.put at h
  obtain ⟨q, hq, h⟩ := exists_of_bind_eq_ok h
  cases h
  unfold PutOptions.parameters at hq
  split at hq
  · cases hq
  · exact ⟨q, rfl, Parameters.madeFrom_of_assemble ⟨rfl, rfl, rfl, rfl, rfl, rfl, rfl⟩ hq⟩

theorem made_update {table : String} {key : Key} {o : UpdateOptions} {a : TransactAction}
    (h : make (.update table key o) = .ok a) :
    ∃ q, a = .narrowed .update q ∧
      Parameters.MadeFrom (o.report { table, key })
        { conditions := o.conditions, updates := o.actions } q := by
  unfold make TransactAction.update at h
  obtain ⟨q, hq, h⟩ := exists_of_bind_eq_ok h
  cases h
  obtain ⟨_, -, hq⟩ := exists_of_bind_eq_ok hq
  exact ⟨q, rfl, Parameters.madeFrom_of_assemble ⟨rfl, rfl, rfl, rfl, rfl, rfl, rfl⟩ hq⟩

theorem made_delete {table : String} {key : Key} {o : DeleteOptions} {a : TransactAction}
    (h : make (.delete table key o) = .ok a) :
    ∃ q, a = .narrowed .delete q ∧
      Parameters.MadeFrom (o.report { table, key }) { conditions := o.conditions } q := by
  unfold make TransactAction.delete at h
  obtain ⟨q, hq, h⟩ := exists_of_bind_eq_ok h
  cases h
  obtain ⟨_, -, hq⟩ := exists_of_bind_eq_ok hq
  exact ⟨q, rfl, Parameters.madeFrom_of_assemble ⟨rfl, rfl, rfl, rfl, rfl, rfl, rfl⟩ hq⟩

/-- The conjunction of one condition is the condition. -/
theorem prune_all_singleton (c : Condition) : (Condition.all [c]).prune = c.prune := by
  rw [Condition.prune, Condition.pruneList]
  cases c.prune <;> rfl

theorem meaning_eq_none_iff (actions : List UpdateAction) :
    UpdateAction.meaning actions = none ↔ ∀ a ∈ actions, a.survives = false := by
  simp [UpdateAction.meaning, List.filter_eq_nil_iff]

/-- A part that was made comes to an entry that it fills, or is refused for what it says. -/
theorem entry_of_make {part : WritePart} {a : TransactAction} (h : part.make = .ok a) :
    (∃ entry, a.entry = .ok entry ∧ part.refusal? = none ∧ part.Fills entry) ∨
      ∃ reason, a.entry = .error (.rejected reason) ∧ part.refusal? = some reason := by
  cases part with
  | check table key c =>
    obtain ⟨q, rfl, made⟩ := made_check h
    have condition := made.condition
    rw [prune_all_singleton] at condition
    have entry := TransactAction.entry_check q
    cases text : q.condition with
    | none =>
      rw [text] at entry condition
      have nothing := condition.eq_none_iff.1 rfl
      exact .inr ⟨_, entry, by simp [refusal?, nothing]⟩
    | some written =>
      rw [text] at entry condition
      have left : c.prune ≠ none := mt condition.eq_none_iff.2 nofun
      refine .inl ⟨_, entry, refusal?_eq_none_iff.2 left,
        .check ⟨made.table, made.key⟩ condition ?_⟩
      rw [made.returnValues]
      rfl
  | put table item o =>
    obtain ⟨q, rfl, made⟩ := made_put h
    have mode : q.returnValues = o.returnValues := made.returnValues
    refine .inl ⟨_, rfl, rfl, .put ⟨made.table, made.item⟩ made.condition ?_⟩
    rw [← mode]
    exact returnedOnFailure q.returnValues
  | update table key o =>
    obtain ⟨q, rfl, made⟩ := made_update h
    have mode : q.returnValues = o.returnValues := made.returnValues
    have update := made.update
    have entry := TransactAction.entry_update q
    cases text : q.update with
    | none =>
      rw [text] at entry update
      have still := (meaning_eq_none_iff _).1 (update.eq_none_iff.1 rfl)
      exact .inr ⟨_, entry, by simpa [refusal?] using still⟩
    | some written =>
      rw [text] at entry update
      have moves : ∃ a ∈ o.actions, a.survives = true := by
        have meant := mt update.eq_none_iff.2 nofun
        simpa [meaning_eq_none_iff] using meant
      refine .inl ⟨_, entry, refusal?_eq_none_iff.2 moves, ?_⟩
      refine .update ⟨made.table, made.key⟩ made.condition update ?_
      rw [← mode]
      exact returnedOnFailure q.returnValues
  | delete table key o =>
    obtain ⟨q, rfl, made⟩ := made_delete h
    have mode : q.returnValues = o.returnValues := made.returnValues
    refine .inl ⟨_, rfl, rfl, .delete ⟨made.table, made.key⟩ made.condition ?_⟩
    rw [← mode]
    exact returnedOnFailure q.returnValues

theorem error?_entry {part : WritePart} {a : TransactAction} (h : part.make = .ok a) :
    error? a.entry = part.refusal?.map .rejected := by
  obtain ⟨entry, made, taken, -⟩ | ⟨reason, refused, why⟩ := entry_of_make h
  · rw [made, taken]
    rfl
  · rw [refused, why]
    rfl

theorem fills_of_entry {part : WritePart} {a : TransactAction} (h : part.make = .ok a)
    {entry : TransactWrite.Entry} (he : a.entry = .ok entry) : part.Fills entry := by
  obtain ⟨own, made, -, fills⟩ | ⟨reason, refused, -⟩ := entry_of_make h
  · obtain rfl := Except.ok.inj (made.symm.trans he)
    exact fills
  · cases refused.symm.trans he

end WritePart

/-! ### The number of parts -/

/-- Why a transaction of so many parts is refused. -/
def sizeRefusal? (size : Nat) : Option Rejection :=
  if size = 0 then some .noTransactions
  else if mostTransactEntries < size then some (.tooManyTransactions mostTransactEntries)
  else none

theorem error?_validateTransactSize (size : Nat) :
    error? (validateTransactSize size) = (sizeRefusal? size).map .rejected := by
  unfold validateTransactSize sizeRefusal?
  split
  · rfl
  split
  · rfl
  · rfl

theorem sizeRefusal?_eq_none_iff {size : Nat} :
    sizeRefusal? size = none ↔ 1 ≤ size ∧ size ≤ 25 := by
  unfold sizeRefusal? mostTransactEntries
  split
  · simp; omega
  split
  · simp; omega
  · simp; omega

/-! ### Transactions -/

namespace WritePart
variable {parts : List WritePart} {actions : List TransactAction}

/-- Each part was made. -/
def AllMade (parts : List WritePart) (actions : List TransactAction) : Prop :=
  List.Forall₂ (fun part a => part.make = .ok a) parts actions

/-- How parts are refused: for their number, or else for the first that is not well-formed. -/
inductive Refused (parts : List WritePart) : Failure → Prop where
  | none (empty : parts = []) : Refused parts (.rejected .noTransactions)
  | tooMany (many : 25 < parts.length) : Refused parts (.rejected (.tooManyTransactions 25))
  | first (few : parts.length ≤ 25) {earlier later : List WritePart} {part : WritePart}
      (split : parts = earlier ++ part :: later) (before : ∀ part ∈ earlier, part.IsWellFormed)
      {reason : Rejection} (refused : part.refusal? = some reason) :
      Refused parts (.rejected reason)

theorem refused_iff {failure : Failure} :
    Refused parts failure ↔
      ((sizeRefusal? parts.length).or (parts.findSome? refusal?)).map .rejected =
        some failure := by
  constructor
  · rintro (empty | many | ⟨few, split, before, refused⟩)
    · rw [empty]
      rfl
    · have size : sizeRefusal? parts.length = some (.tooManyTransactions 25) := by
        rw [sizeRefusal?, if_neg (by omega)]
        exact if_pos many
      rw [size]
      rfl
    · next earlier later part reason =>
      have some : 1 ≤ parts.length := by
        rw [split, List.length_append, List.length_cons]
        omega
      have first : parts.findSome? refusal? = .some reason :=
        List.findSome?_eq_some_iff.2 ⟨earlier, part, later, split, refused,
          fun part member => refusal?_eq_none_iff.2 (before part member)⟩
      rw [sizeRefusal?_eq_none_iff.2 ⟨some, few⟩, first]
      rfl
  · intro h
    obtain ⟨reason, why, rfl⟩ := Option.map_eq_some_iff.1 h
    rcases Option.or_eq_some_iff.1 why with size | ⟨size, first⟩
    · unfold sizeRefusal? at size
      split at size
      · next empty =>
        cases size
        exact .none (List.length_eq_zero_iff.1 empty)
      split at size
      · next many =>
        cases size
        exact .tooMany many
      · cases size
    · obtain ⟨earlier, part, later, split, refused, before⟩ := List.findSome?_eq_some_iff.1 first
      exact .first (sizeRefusal?_eq_none_iff.1 size).2 split
        (fun part member => refusal?_eq_none_iff.1 (before part member)) refused

theorem error?_compose (made : AllMade parts actions) (o : TransactWriteOptions) (fresh : String) :
    error? (o.compose actions fresh) =
      ((sizeRefusal? parts.length).or (parts.findSome? refusal?)).map .rejected := by
  have entries : error? (actions.mapM TransactAction.entry) =
      (parts.findSome? refusal?).map .rejected := by
    rw [error?_mapM, List.map_findSome?]
    induction made with
    | nil => rfl
    | cons here _ ih => rw [List.findSome?_cons, List.findSome?_cons, error?_entry here, ih]; rfl
  have request : o.compose actions fresh =
      validateTransactSize actions.length >>= fun _ =>
        (actions.mapM TransactAction.entry).map fun entries =>
          ⟨entries, some (o.token.getD fresh), o.reportCapacity, o.reportMetrics⟩ := by
    unfold TransactWriteOptions.compose
    cases actions.mapM TransactAction.entry <;> rfl
  rw [request, error?_bind_check, error?_map, error?_validateTransactSize, entries, made.length_eq,
    Option.map_or]

/-- A write is put together from parts that are all well-formed, if there are some and not too
many. -/
theorem exists_compose_iff (made : AllMade parts actions) (o : TransactWriteOptions)
    (fresh : String) :
    (∃ request, o.compose actions fresh = .ok request) ↔
      1 ≤ parts.length ∧ parts.length ≤ 25 ∧ ∀ part ∈ parts, part.IsWellFormed := by
  rw [← error?_eq_none_iff, error?_compose made, Option.map_eq_none_iff, Option.or_eq_none_iff,
    sizeRefusal?_eq_none_iff, List.findSome?_eq_none_iff, and_assoc]
  simp only [refusal?_eq_none_iff]

theorem fills_of_entries (made : AllMade parts actions) {entries : List TransactWrite.Entry}
    (came : List.Forall₂ (fun a entry => TransactAction.entry a = .ok entry) actions entries) :
    List.Forall₂ Fills parts entries := by
  induction made generalizing entries with
  | nil =>
    cases came
    exact .nil
  | cons here _ ih =>
    cases came with
    | cons entry rest => exact .cons (fills_of_entry here entry) (ih rest)

/-- The entries of a write are filled by its parts, in order, and its token is that of the caller or
else a fresh one. -/
theorem filled_of_compose (made : AllMade parts actions) {o : TransactWriteOptions} {fresh : String}
    {request : TransactWrite.Request} (h : o.compose actions fresh = .ok request) :
    List.Forall₂ Fills parts request.entries ∧ request.token = some (o.token.getD fresh) ∧
      request.reportCapacity = o.reportCapacity ∧ request.reportMetrics = o.reportMetrics := by
  obtain ⟨_, -, h⟩ := exists_of_bind_eq_ok h
  obtain ⟨entries, came, h⟩ := exists_of_bind_eq_ok h
  cases h
  exact ⟨fills_of_entries made (mapM_eq_ok_iff_forall₂.1 came), rfl, rfl, rfl⟩

end WritePart

/-! ### Parts of a read -/

/-- A part of a read, as it is described. -/
structure ReadPart where
  table : String
  key : Key
  options : GetOptions

namespace ReadPart

/-- Makes a part. -/
def make (part : ReadPart) : Outcome TransactRead :=
  TransactRead.get part.table part.key part.options

/-- An entry is about the item of a part, and asks for what the part asks for. -/
structure Fills (part : ReadPart) (entry : TransactGet.Entry) : Prop where
  table : entry.get.table = part.table
  key : entry.get.key = part.key
  projection : Parameters.Carries entry.get.carried.sense.projection? Eq entry.get.projection
    (Path.meaning part.options.projection)

theorem fills_entry {part : ReadPart} {r : TransactRead} (h : part.make = .ok r) :
    part.Fills r.entry := by
  unfold make TransactRead.get at h
  obtain ⟨q, hq, h⟩ := exists_of_bind_eq_ok h
  cases h
  have values := (GetOptions.assembled hq).values rfl
  obtain ⟨_, -, hq⟩ := exists_of_bind_eq_ok hq
  have made := Parameters.madeFrom_of_assemble ⟨rfl, rfl, rfl, rfl, rfl, rfl, rfl⟩ hq
  refine ⟨made.table, made.key, ?_⟩
  have projection := made.projection
  rw [Parameters.sense, values] at projection
  exact projection

variable {parts : List ReadPart} {reads : List TransactRead}

/-- Each part was made. -/
def AllMade (parts : List ReadPart) (reads : List TransactRead) : Prop :=
  List.Forall₂ (fun part r => part.make = .ok r) parts reads

theorem error?_compose (made : AllMade parts reads) (reportCapacity : Option CapacityReport) :
    error? (TransactRead.compose reads reportCapacity) =
      (sizeRefusal? parts.length).map .rejected := by
  have request : TransactRead.compose reads reportCapacity =
      validateTransactSize reads.length >>= fun _ =>
        .ok ⟨reads.map TransactRead.entry, reportCapacity⟩ := rfl
  rw [request, error?_bind_check, error?_validateTransactSize, made.length_eq]
  exact Option.or_none

theorem filled_of_compose (made : AllMade parts reads) {reportCapacity : Option CapacityReport}
    {request : TransactGet.Request}
    (h : TransactRead.compose reads reportCapacity = .ok request) :
    List.Forall₂ Fills parts request.entries ∧ request.reportCapacity = reportCapacity := by
  obtain ⟨_, -, h⟩ := exists_of_bind_eq_ok h
  cases h
  exact ⟨List.forall₂_map_right_iff.2 (made.imp fun _ _ => fills_entry), rfl⟩

end ReadPart

/-- **What makes a transaction.** Whatever parts were made, a write is put together from them
exactly if there are one to twenty-five, pruning leaves something of the condition of each check,
and an action of each update changes anything. It then has an entry for each part, in order and of
its kind, that says what the part says; a token of the caller is its token, and it has one in any
case. Otherwise the number of parts is what is wrong, or else the first part that is not
well-formed. A read is put together from one to twenty-five parts, in order. -/
theorem transaction_composed :
    (∀ parts actions, WritePart.AllMade parts actions →
      ∀ (o : TransactWriteOptions) (fresh : String),
        ((∃ request, o.compose actions fresh = .ok request) ↔
          1 ≤ parts.length ∧ parts.length ≤ 25 ∧ ∀ part ∈ parts, part.IsWellFormed) ∧
        (∀ request, o.compose actions fresh = .ok request →
          request.entries.length = parts.length ∧
            List.Forall₂ WritePart.Fills parts request.entries ∧
            (∀ token, o.token = some token → request.token = some token) ∧
            (∃ token, request.token = some token)) ∧
        ∀ failure, o.compose actions fresh = .error failure ↔ WritePart.Refused parts failure) ∧
    ∀ parts reads, ReadPart.AllMade parts reads → ∀ reportCapacity : Option CapacityReport,
      ((∃ request, TransactRead.compose reads reportCapacity = .ok request) ↔
        1 ≤ parts.length ∧ parts.length ≤ 25) ∧
      (∀ request, TransactRead.compose reads reportCapacity = .ok request →
        request.entries.length = parts.length ∧ List.Forall₂ ReadPart.Fills parts request.entries) ∧
      ∀ failure, TransactRead.compose reads reportCapacity = .error failure ↔
        (sizeRefusal? parts.length).map .rejected = some failure := by
  refine ⟨fun parts actions made o fresh => ⟨WritePart.exists_compose_iff made o fresh, ?_, ?_⟩,
    fun parts reads made reportCapacity => ⟨?_, ?_, ?_⟩⟩
  · intro request h
    obtain ⟨fills, token, -, -⟩ := WritePart.filled_of_compose made h
    refine ⟨fills.length_eq.symm, fills, fun own given => ?_, _, token⟩
    rw [token, given]
    rfl
  · intro failure
    rw [WritePart.refused_iff, ← WritePart.error?_compose made o fresh, error?_eq_some_iff]
  · rw [← error?_eq_none_iff, ReadPart.error?_compose made, Option.map_eq_none_iff,
      sizeRefusal?_eq_none_iff]
  · intro request h
    obtain ⟨fills, -⟩ := ReadPart.filled_of_compose made h
    exact ⟨fills.length_eq.symm, fills⟩
  · intro failure
    rw [← ReadPart.error?_compose made reportCapacity, error?_eq_some_iff]

/-- A check whose condition has an absent part and an update with an action that changes nothing are
taken. An update without actions is what is wrong before a check without a condition is. Two reads
are taken, one of which asks for an attribute, and none are not. -/
theorem transaction_composed_mixed :
    let key : Key := .ofList [("k", .text "1")]
    let there := Condition.exists? ⟨[.name "a"]⟩
    let parts : List WritePart :=
      [.check "t" key (.any [.all [], there]),
        .update "t" key { actions := [.append ⟨[.name "l"]⟩ [], .remove ⟨[.name "a"]⟩] }]
    let others : List WritePart :=
      [.check "t" key there, .update "t" key {}, .check "t" key (.all [])]
    let looks : List ReadPart :=
      [⟨"t", key, { projection := [⟨[.name "a"]⟩] }⟩, ⟨"u", key, {}⟩]
    (∃ actions request, WritePart.AllMade parts actions ∧
      TransactWriteOptions.compose {} actions "fresh" = .ok request ∧
      request.entries.length = 2 ∧ List.Forall₂ WritePart.Fills parts request.entries) ∧
    (∃ actions, WritePart.AllMade others actions ∧
      TransactWriteOptions.compose {} actions "fresh" =
        .error (.rejected .updateWithoutAction)) ∧
    (∃ reads request, ReadPart.AllMade looks reads ∧
      TransactRead.compose reads (some .total) = .ok request ∧
      request.entries.length = 2 ∧ List.Forall₂ ReadPart.Fills looks request.entries) ∧
    ReadPart.AllMade [] [] ∧
      TransactRead.compose [] none = .error (.rejected .noTransactions) := by
  intro key there parts others looks
  let exists_a : TransactAction :=
    ⟨.check,
      { table := "t", key, condition := some "attribute_exists(#n0)"
        names := .ofList [("#n0", "a")] }⟩
  let remove_a : TransactAction :=
    ⟨.update, { table := "t", key, update := some "REMOVE #n0", names := .ofList [("#n0", "a")] }⟩
  have made : WritePart.AllMade parts [exists_a, remove_a] :=
    .cons (by decide +kernel) (.cons (by decide +kernel) .nil)
  have others_made : WritePart.AllMade others
      [exists_a, ⟨.update, { table := "t", key }⟩, ⟨.check, { table := "t", key }⟩] :=
    .cons (by decide +kernel) (.cons (by decide +kernel) (.cons (by decide +kernel) .nil))
  have looks_made : ReadPart.AllMade looks
      [⟨{ table := "t", key, projection := some "#n0", names := .ofList [("#n0", "a")] }⟩,
        ⟨{ table := "u", key }⟩] :=
    .cons (by decide +kernel) (.cons (by decide +kernel) .nil)
  obtain ⟨accepted, filled, -⟩ := transaction_composed.1 _ _ made {} "fresh"
  obtain ⟨-, -, refused⟩ := transaction_composed.1 _ _ others_made {} "fresh"
  obtain ⟨looks_accepted, looks_filled, -⟩ :=
    transaction_composed.2 _ _ looks_made (some .total)
  obtain ⟨-, -, none_refused⟩ := transaction_composed.2 [] [] .nil none
  refine ⟨?_, ?_, ?_, .nil, (none_refused _).2 rfl⟩
  · obtain ⟨request, h⟩ := accepted.2 ⟨by decide, by decide, by
      simp only [parts, List.forall_mem_cons]
      exact ⟨nofun, ⟨_, List.mem_cons_of_mem _ List.mem_cons_self, rfl⟩, nofun⟩⟩
    obtain ⟨length, fills, -⟩ := filled request h
    exact ⟨_, request, made, h, length, fills⟩
  · have before : ∀ part ∈ [WritePart.check "t" key there], part.IsWellFormed := by
      simp only [List.forall_mem_cons]
      exact ⟨nofun, nofun⟩
    exact ⟨_, others_made, (refused _).2 (.first (by decide) rfl before rfl)⟩
  · obtain ⟨request, h⟩ := looks_accepted.2 ⟨by decide, by decide⟩
    obtain ⟨length, fills⟩ := looks_filled request h
    exact ⟨_, request, looks_made, h, length, fills⟩

end TableClient
