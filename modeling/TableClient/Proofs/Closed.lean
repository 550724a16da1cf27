import TableClient.Batch
import TableClient.Options.Read
import TableClient.Proofs.Assembly
import TableClient.Proofs.Binding
import TableClient.Proofs.Except
import TableClient.Proofs.Minimal
import TableClient.Transaction
import Mathlib.Data.List.ReduceOption

/-! Requests bind the tokens that they use, and no others.

What assembly binds are the tokens of the texts that it writes (`Renders.mem_tokens`), so assembled
parameters are closed. Narrowing drops fields from them. It drops no text, for what the options of
a call cannot say is not there, and it drops the values only where all that is said is a
projection, whose paths bind none (`Parameters.Assembled`). So every request that a call comes to,
and every part of a transaction, is closed (`isClosed_of_built`). -/
namespace TableClient

/-! ### What requests carry -/

/-- The expression texts of a request, and the maps beside them. -/
structure Carried where
  texts : List (Option String)
  names : KeyMap String
  values : KeyMap AttributeValue
deriving DecidableEq

namespace Carried

/-- The tokens with a sigil that stand in the texts. -/
def tokens (c : Carried) (sigil : Char) : List String :=
  (c.texts.reduceOption.flatMap Token.tokens).filter (Token.isToken sigil)

/-- The maps bind the tokens that stand in the texts, and no others. -/
structure IsClosed (c : Carried) : Prop where
  names : ∀ token, token ∈ c.tokens Token.nameSigil ↔ token ∈ c.names.keyList
  values : ∀ token, token ∈ c.tokens Token.valueSigil ↔ token ∈ c.values.keyList

/-- Nothing but the texts and the maps counts. -/
theorem IsClosed.congr {c c' : Carried} (h : c.IsClosed)
    (texts : c'.texts.reduceOption = c.texts.reduceOption) (names : c'.names = c.names)
    (values : c'.values = c.values) : c'.IsClosed := by
  constructor <;> intro token
  · rw [tokens, texts, names]
    exact h.names token
  · rw [tokens, texts, values]
    exact h.values token

end Carried

def Parameters.carried (p : Parameters) : Carried :=
  ⟨[p.projection, p.keyCondition, p.condition, p.filter, p.update], p.names, p.values⟩

def GetItem.Request.carried (r : GetItem.Request) : Carried := ⟨[r.projection], r.names, ∅⟩

def PutItem.Request.carried (r : PutItem.Request) : Carried := ⟨[r.condition], r.names, r.values⟩

def UpdateItem.Request.carried (r : UpdateItem.Request) : Carried :=
  ⟨[r.condition, r.update], r.names, r.values⟩

def DeleteItem.Request.carried (r : DeleteItem.Request) : Carried :=
  ⟨[r.condition], r.names, r.values⟩

def Query.Request.carried (r : Query.Request) : Carried :=
  ⟨[r.projection, r.keyCondition, r.filter], r.names, r.values⟩

def Scan.Request.carried (r : Scan.Request) : Carried :=
  ⟨[r.projection, r.filter], r.names, r.values⟩

def TableKeys.carried (t : TableKeys) : Carried := ⟨[t.projection], t.names, ∅⟩

namespace TransactWrite

def Check.carried (c : Check) : Carried := ⟨[some c.condition], c.names, c.values⟩

def Put.carried (p : Put) : Carried := ⟨[p.condition], p.names, p.values⟩

def Delete.carried (d : Delete) : Carried := ⟨[d.condition], d.names, d.values⟩

def Update.carried (u : Update) : Carried := ⟨[u.condition, some u.update], u.names, u.values⟩

/-- What the parts carry that stand in an entry of a write. -/
def Entry.carried (e : Entry) : List Carried :=
  [e.check.map Check.carried, e.put.map Put.carried, e.delete.map Delete.carried,
    e.update.map Update.carried].reduceOption

end TransactWrite

def TransactGet.Get.carried (g : TransactGet.Get) : Carried := ⟨[g.projection], g.names, ∅⟩

/-! ### What calls come to -/

/-- A part of a write, made from a condition, an item or a key with options. -/
inductive TransactAction.IsMade (a : TransactAction) : Prop where
  | check {table : String} {key : Key} {condition : Condition}
      (h : TransactAction.check table key condition = .ok a)
  | put {table : String} {item : Item} {o : PutOptions}
      (h : TransactAction.put table item o = .ok a)
  | delete {table : String} {key : Key} {o : DeleteOptions}
      (h : TransactAction.delete table key o = .ok a)
  | update {table : String} {key : Key} {o : UpdateOptions}
      (h : TransactAction.update table key o = .ok a)

/-- A part of a read, made from a key with options. -/
inductive TransactRead.IsMade (r : TransactRead) : Prop where
  | get {table : String} {key : Key} {o : GetOptions} (h : TransactRead.get table key o = .ok r)

/-- What is carried by the requests that calls come to. Of a read of many items it is what each
table of each of its requests carries, of a transaction what each part does. -/
inductive Built : Carried → Prop where
  | get {o : GetOptions} {table : String} {key : Key} {pending : Pending GetItem.Request}
      (h : o.finalize table key = .ok pending) : Built pending.request.carried
  | put {o : PutOptions} {table : String} {item : Item} {pending : Pending PutItem.Request}
      (h : o.finalize table item = .ok pending) : Built pending.request.carried
  | update {o : UpdateOptions} {table : String} {key : Key} {pending : Pending UpdateItem.Request}
      (h : o.finalize table key = .ok pending) : Built pending.request.carried
  | delete {o : DeleteOptions} {table : String} {key : Key} {pending : Pending DeleteItem.Request}
      (h : o.finalize table key = .ok pending) : Built pending.request.carried
  | query {o : QueryOptions} {table : String} {partition : Key} {pending : Pending Query.Request}
      (h : o.finalize table partition = .ok pending) : Built pending.request.carried
  | scan {o : ScanOptions} {table : String} {segments : Nat} {pending : Pending Scan.Request}
      (h : o.finalize table segments = .ok pending) : Built pending.request.carried
  | batchGet {o : BatchGetOptions} {table : String} {keys : List Key} {pending : Pending BatchRead}
      (h : o.finalize table keys = .ok pending) {request : BatchGet.Request}
      (sent : request ∈ pending.request.requests) {entry : String × TableKeys}
      (member : entry ∈ request.tables.toList) : Built entry.2.carried
  | transactWrite {actions : List TransactAction} {o : TransactWriteOptions} {fresh : String}
      {request : TransactWrite.Request} (made : ∀ a ∈ actions, a.IsMade)
      (h : o.compose actions fresh = .ok request) {entry : TransactWrite.Entry}
      (member : entry ∈ request.entries) {c : Carried} (part : c ∈ entry.carried) : Built c
  | transactGet {reads : List TransactRead} {reportCapacity : Option CapacityReport}
      {request : TransactGet.Request} (made : ∀ r ∈ reads, r.IsMade)
      (h : TransactRead.compose reads reportCapacity = .ok request) {entry : TransactGet.Entry}
      (member : entry ∈ request.entries) : Built entry.get.carried

/-! ### Assembled parameters -/

/-- The bindings made for a projection are of names. -/
theorem Path.compileAll_values {ps : List Path} {s s' : Scope} {f : Option Fragment}
    (h : compileAll ps s = (.ok f, s')) : (Fragment.made f).values = [] := by
  cases f with
  | none => rfl
  | some f => exact List.map_eq_nil_iff.1 (compileAll_binds h).2

theorem eq_none_of_rel {α β : Type} {R : α → β → Prop} {a : Option α} {b : Option β}
    (h : Option.Rel R a b) (nothing : b = none) : a = none := by
  subst nothing
  cases h
  rfl

namespace Expressions

/-- The texts of rendered expressions, in canonical form. -/
def texts (r : Expressions (Option Fragment)) : Expressions (Option String) :=
  let text := Option.map fun f => r.form.substitute f.text
  ⟨text r.projection, text r.keyCondition, text r.condition, text r.filter, text r.update⟩

theorem reduceOption_texts (r : Expressions (Option Fragment)) :
    r.texts.toList.reduceOption =
      ((r.toList.filterMap id).map Fragment.text).map r.form.substitute := by
  rw [show r.texts.toList = r.toList.map (Option.map fun f => r.form.substitute f.text) from rfl,
    List.reduceOption_map, List.map_map]
  rfl

end Expressions

namespace ExpressionSet
variable {e : ExpressionSet} {r : Expressions (Option Fragment)}

theorem Renders.binds (h : e.Renders r) :
    ∀ token ∈ ((r.toList.filterMap id).map Fragment.text).flatMap Token.tokens,
      (Fragment.merged (r.toList.filterMap id)).Binds token := by
  intro token used
  obtain ⟨text, htext, occurs⟩ := List.mem_flatMap.1 used
  obtain ⟨f, member, rfl⟩ := List.mem_map.1 htext
  exact Bindings.binds_of_target
    (h.isBound member _ (Fragment.honors_of_merged h.proper.honors member) token occurs)

/-- The texts in canonical form use the tokens that are bound, and no others. -/
theorem Renders.isClosed (h : e.Renders r) :
    Carried.IsClosed ⟨r.texts.toList, .ofList r.form.bindings.names,
      .ofList r.form.bindings.values⟩ := by
  constructor <;> intro token <;>
    rw [Carried.tokens, r.reduceOption_texts, KeyMap.mem_keyList_ofList, Expressions.form]
  · rw [← h.proper.filter_names h.binds, List.mem_filter, List.mem_filter, List.mem_eraseDups]
  · rw [← h.proper.filter_values h.binds, List.mem_filter, List.mem_filter, List.mem_eraseDups]

/-- The projection is rendered first. -/
theorem compileAll_of_compile (h : e.compile = .ok r) :
    ∃ s, Path.compileAll e.projection {} = (.ok r.projection, s) := by
  have run : e.emit.run.run {} = (.ok r, (e.emit.run.run {}).2) := Prod.ext h rfl
  obtain ⟨projection, s₁, first, run⟩ := ok_of_bind run
  obtain ⟨keyCondition, s₂, -, run⟩ := ok_of_bind run
  obtain ⟨condition, s₃, -, run⟩ := ok_of_bind run
  obtain ⟨filter, s₄, -, run⟩ := ok_of_bind run
  obtain ⟨update, s₅, -, run⟩ := ok_of_bind run
  obtain rfl := Except.ok.inj (Prod.mk.inj run).1
  exact ⟨s₁, first⟩

/-- A projection alone has no values. -/
theorem values_form {ps : List Path} (h : compile { projection := ps } = .ok r) :
    r.form.bindings.values = [] := by
  have rendered := renders_of_compile h
  have hmerged : (Fragment.merged (r.toList.filterMap id)).values = [] := by
    obtain ⟨s, hprojection⟩ := compileAll_of_compile h
    rw [Expressions.toList, eq_none_of_rel rendered.keyCondition rfl,
      eq_none_of_rel rendered.condition rfl, eq_none_of_rel rendered.filter rfl,
      eq_none_of_rel rendered.update rfl]
    simp only [Fragment.merged_filterMap_cons, Bindings.values_append,
      Path.compileAll_values hprojection]
    rfl
  refine List.eq_nil_iff_forall_not_mem.2 fun entry hentry => ?_
  obtain ⟨token, hfound⟩ := rendered.proper.exists_find?_values hentry
  rw [hmerged] at hfound
  cases hfound

end ExpressionSet

namespace Parameters

/-- Rendered expressions put over those of parameters. -/
structure Overlaid (p : Parameters) (r : Expressions (Option Fragment)) (q : Parameters) :
    Prop where
  projection : q.projection = r.texts.projection.or p.projection
  keyCondition : q.keyCondition = r.texts.keyCondition.or p.keyCondition
  condition : q.condition = r.texts.condition.or p.condition
  filter : q.filter = r.texts.filter.or p.filter
  update : q.update = r.texts.update.or p.update
  names : q.names = p.names.insertAll r.form.bindings.names
  values : q.values = p.values.insertAll r.form.bindings.values

theorem overlaid_of_assemble {p q : Parameters} {e : ExpressionSet} (h : p.assemble e = .ok q) :
    ∃ r, e.compile = .ok r ∧ p.Overlaid r q := by
  obtain ⟨r, compiled, rfl⟩ := assemble_ok h
  refine ⟨r, compiled, ?_⟩
  rw [forIndex_eq]
  constructor
  · cases hr : r.projection <;> simp [bind, setTexts, Expressions.texts, hr]
  · cases hr : r.keyCondition <;> simp [bind, setTexts, Expressions.texts, hr]
  · cases hr : r.condition <;> simp [bind, setTexts, Expressions.texts, hr]
  · cases hr : r.filter <;> simp [bind, setTexts, Expressions.texts, hr]
  · cases hr : r.update <;> simp [bind, setTexts, Expressions.texts, hr]
  · rfl
  · rfl

/-- What assembled parameters hold where nothing was said before: of what is not said no text, and
of a projection no values. -/
structure Assembled (q : Parameters) (e : ExpressionSet) : Prop where
  isClosed : q.carried.IsClosed
  projection : e.projection = [] → q.projection = none
  keyCondition : e.keyConditions = [] → q.keyCondition = none
  condition : e.conditions = [] → q.condition = none
  filter : e.filters = [] → q.filter = none
  update : e.updates = [] → q.update = none
  values : e = { projection := e.projection } → q.values = ∅

theorem assembled {p q : Parameters} {e : ExpressionSet} (blank : p.IsBlank)
    (h : p.assemble e = .ok q) : q.Assembled e := by
  obtain ⟨r, compiled, overlaid⟩ := overlaid_of_assemble h
  have rendered := ExpressionSet.renders_of_compile compiled
  have hprojection := overlaid.projection.trans (blank.projection ▸ Option.or_none)
  have hkeyCondition := overlaid.keyCondition.trans (blank.keyCondition ▸ Option.or_none)
  have hcondition := overlaid.condition.trans (blank.condition ▸ Option.or_none)
  have hfilter := overlaid.filter.trans (blank.filter ▸ Option.or_none)
  have hupdate := overlaid.update.trans (blank.update ▸ Option.or_none)
  have hnames := overlaid.names.trans (blank.names ▸ KeyMap.insertAll_empty _)
  have hvalues := overlaid.values.trans (blank.values ▸ KeyMap.insertAll_empty _)
  have unset {α : Type} {reader : Grammar.Reader α} {fragment : Option Fragment} {a : Option α}
      (rel : Option.Rel (fun f said => f.Tells reader said) fragment a) (nothing : a = none) :
      (fragment.map fun f => r.form.substitute f.text) = none := by
    rw [eq_none_of_rel rel nothing]
    rfl
  constructor
  · rw [carried, hprojection, hkeyCondition, hcondition, hfilter, hupdate, hnames, hvalues]
    exact rendered.isClosed
  · exact fun empty => hprojection.trans (unset rendered.projection (by rw [empty]; rfl))
  · exact fun empty => hkeyCondition.trans (unset rendered.keyCondition (by rw [empty]; rfl))
  · exact fun empty => hcondition.trans (unset rendered.condition (by rw [empty]; rfl))
  · exact fun empty => hfilter.trans (unset rendered.filter (by rw [empty]; rfl))
  · exact fun empty => hupdate.trans (unset rendered.update (by rw [empty]; rfl))
  · intro only
    rw [only] at compiled
    rw [hvalues, ExpressionSet.values_form compiled]
    rfl

/-! What is left of assembled parameters is closed, if all is left that can be said. -/

section Narrowing
variable {p : Parameters}

theorem Assembled.ofProjection {projection : List Path}
    (h : p.Assembled { projection }) : Carried.IsClosed ⟨[p.projection], p.names, ∅⟩ := by
  refine h.isClosed.congr ?_ rfl (h.values rfl).symm
  rw [carried, h.keyCondition rfl, h.condition rfl, h.filter rfl, h.update rfl]
  rfl

theorem Assembled.ofCondition {conditions : List Condition}
    (h : p.Assembled { conditions }) : Carried.IsClosed ⟨[p.condition], p.names, p.values⟩ := by
  refine h.isClosed.congr ?_ rfl rfl
  rw [carried, h.projection rfl, h.keyCondition rfl, h.filter rfl, h.update rfl]
  rfl

theorem Assembled.ofUpdate {conditions : List Condition} {updates : List UpdateAction}
    (h : p.Assembled { conditions, updates }) :
    Carried.IsClosed ⟨[p.condition, p.update], p.names, p.values⟩ := by
  refine h.isClosed.congr ?_ rfl rfl
  rw [carried, h.projection rfl, h.keyCondition rfl, h.filter rfl]
  rfl

theorem Assembled.ofQuery {projection : List Path} {keyConditions filters : List Condition}
    (h : p.Assembled { projection, keyConditions, filters }) :
    Carried.IsClosed ⟨[p.projection, p.keyCondition, p.filter], p.names, p.values⟩ := by
  refine h.isClosed.congr ?_ rfl rfl
  rw [carried, h.condition rfl, h.update rfl]
  rfl

theorem Assembled.ofScan {projection : List Path} {filters : List Condition}
    (h : p.Assembled { projection, filters }) :
    Carried.IsClosed ⟨[p.projection, p.filter], p.names, p.values⟩ := by
  refine h.isClosed.congr ?_ rfl rfl
  rw [carried, h.keyCondition rfl, h.condition rfl, h.update rfl]
  rfl

end Narrowing

end Parameters

/-! ### Requests -/

theorem GetOptions.assembled {o : GetOptions} {table : String} {key : Key} {p : Parameters}
    (h : o.parameters table key = .ok p) : p.Assembled { projection := o.projection } := by
  obtain ⟨_, -, h⟩ := exists_of_bind_eq_ok h
  exact Parameters.assembled ⟨rfl, rfl, rfl, rfl, rfl, rfl, rfl⟩ h

theorem PutOptions.assembled {o : PutOptions} {table : String} {item : Item} {p : Parameters}
    (h : o.parameters table item = .ok p) : p.Assembled { conditions := o.conditions } := by
  unfold parameters at h
  split at h
  · cases h
  · exact Parameters.assembled ⟨rfl, rfl, rfl, rfl, rfl, rfl, rfl⟩ h

theorem DeleteOptions.assembled {o : DeleteOptions} {table : String} {key : Key} {p : Parameters}
    (h : o.parameters table key = .ok p) : p.Assembled { conditions := o.conditions } := by
  obtain ⟨_, -, h⟩ := exists_of_bind_eq_ok h
  exact Parameters.assembled ⟨rfl, rfl, rfl, rfl, rfl, rfl, rfl⟩ h

theorem UpdateOptions.assembled {o : UpdateOptions} {table : String} {key : Key} {p : Parameters}
    (h : o.parameters table key = .ok p) :
    p.Assembled { conditions := o.conditions, updates := o.actions } := by
  obtain ⟨_, -, h⟩ := exists_of_bind_eq_ok h
  exact Parameters.assembled ⟨rfl, rfl, rfl, rfl, rfl, rfl, rfl⟩ h

theorem Parameters.IsBlank.forward {p : Parameters} (h : p.IsBlank) (forward : Option Bool) :
    IsBlank { p with forward } :=
  ⟨h.1, h.2, h.3, h.4, h.5, h.6, h.7⟩

theorem ReadOptions.isBlank {o : ReadOptions} {table : String} {p : Parameters}
    (h : o.parameters table = .ok p) : p.IsBlank := by
  obtain ⟨limit, -, h⟩ := exists_of_bind_eq_ok h
  cases h
  exact ⟨rfl, rfl, rfl, rfl, rfl, rfl, rfl⟩

theorem ScanOptions.isBlank_oneSegment {o : ScanOptions} {p : Parameters} (h : p.IsBlank) :
    (o.oneSegment p).IsBlank := by
  unfold oneSegment
  split
  · exact ⟨h.1, h.2, h.3, h.4, h.5, h.6, h.7⟩
  · exact h

/-- The entry of a part carries the condition and the maps, and an update what it is to do. -/
theorem TransactAction.carried_of_entry {kind : TransactKind} {p : Parameters}
    {entry : TransactWrite.Entry} (h : (narrowed kind p).entry = .ok entry) {c : Carried}
    (part : c ∈ entry.carried) :
    c = ⟨if kind = .update then [p.condition, p.update] else [p.condition], p.names, p.values⟩ := by
  cases kind with
  | check =>
    unfold TransactAction.entry at h
    dsimp only [narrowed] at h
    split at h
    · cases h
    · next condition hcondition =>
      cases h
      obtain rfl := List.mem_singleton.1 part
      rw [show p.condition = some condition from hcondition]
      rfl
  | put =>
    cases h
    exact List.mem_singleton.1 part
  | delete =>
    cases h
    exact List.mem_singleton.1 part
  | update =>
    unfold TransactAction.entry at h
    dsimp only [narrowed] at h
    split at h
    · cases h
    · next update hupdate =>
      cases h
      obtain rfl := List.mem_singleton.1 part
      rw [show p.update = some update from hupdate]
      rfl

theorem TransactAction.isClosed_of_made {a : TransactAction} (made : a.IsMade)
    {entry : TransactWrite.Entry} (h : a.entry = .ok entry) {c : Carried}
    (part : c ∈ entry.carried) : c.IsClosed := by
  cases made with
  | check hmade =>
    obtain ⟨_, -, hmade⟩ := exists_of_bind_eq_ok hmade
    obtain ⟨p, hp, hmade⟩ := exists_of_bind_eq_ok hmade
    cases hmade
    rw [carried_of_entry h part]
    exact (Parameters.assembled ⟨rfl, rfl, rfl, rfl, rfl, rfl, rfl⟩ hp).ofCondition
  | put hmade =>
    obtain ⟨p, hp, hmade⟩ := exists_of_bind_eq_ok hmade
    cases hmade
    rw [carried_of_entry h part]
    exact (PutOptions.assembled hp).ofCondition
  | delete hmade =>
    obtain ⟨p, hp, hmade⟩ := exists_of_bind_eq_ok hmade
    cases hmade
    rw [carried_of_entry h part]
    exact (DeleteOptions.assembled hp).ofCondition
  | update hmade =>
    obtain ⟨p, hp, hmade⟩ := exists_of_bind_eq_ok hmade
    cases hmade
    rw [carried_of_entry h part]
    exact (UpdateOptions.assembled hp).ofUpdate

/-- **Requests are closed**: the tokens of their texts are those that they bind. -/
theorem isClosed_of_built {c : Carried} (built : Built c) : c.IsClosed := by
  cases built with
  | get h =>
    obtain ⟨p, hp, h⟩ := exists_of_bind_eq_ok h
    cases h
    exact (GetOptions.assembled hp).ofProjection
  | put h =>
    obtain ⟨p, hp, h⟩ := exists_of_bind_eq_ok h
    cases h
    exact (PutOptions.assembled hp).ofCondition
  | update h =>
    obtain ⟨p, hp, h⟩ := exists_of_bind_eq_ok h
    cases h
    exact (UpdateOptions.assembled hp).ofUpdate
  | delete h =>
    obtain ⟨p, hp, h⟩ := exists_of_bind_eq_ok h
    cases h
    exact (DeleteOptions.assembled hp).ofCondition
  | query h =>
    obtain ⟨_, -, h⟩ := exists_of_bind_eq_ok h
    obtain ⟨p, hp, h⟩ := exists_of_bind_eq_ok h
    obtain ⟨q, hq, h⟩ := exists_of_bind_eq_ok h
    cases h
    exact (Parameters.assembled ((ReadOptions.isBlank hp).forward _) hq).ofQuery
  | scan h =>
    obtain ⟨p, hp, h⟩ := exists_of_bind_eq_ok h
    obtain ⟨q, hq, h⟩ := exists_of_bind_eq_ok h
    cases h
    exact (Parameters.assembled (ScanOptions.isBlank_oneSegment (ReadOptions.isBlank hp)) hq).ofScan
  | batchGet h sent member =>
    obtain ⟨_, -, h⟩ := exists_of_bind_eq_ok h
    obtain ⟨p, hp, h⟩ := exists_of_bind_eq_ok h
    cases h
    obtain ⟨keys, -, rfl⟩ := List.mem_map.1 sent
    rw [KeyMap.toList_single] at member
    obtain rfl := List.mem_singleton.1 member
    exact (Parameters.assembled ⟨rfl, rfl, rfl, rfl, rfl, rfl, rfl⟩ hp).ofProjection
  | transactWrite made h member part =>
    obtain ⟨_, -, h⟩ := exists_of_bind_eq_ok h
    obtain ⟨entries, hentries, h⟩ := exists_of_bind_eq_ok h
    cases h
    rw [mapM_eq_ok_iff_forall₂] at hentries
    have hparts := (List.forall₂_and_left _ _).2 ⟨made, hentries⟩
    obtain ⟨a, hmade, hentry⟩ := exists_forall₂_iff.1 ⟨_, hparts.flip⟩ _ member
    exact TransactAction.isClosed_of_made hmade hentry part
  | transactGet made h member =>
    obtain ⟨_, -, h⟩ := exists_of_bind_eq_ok h
    cases h
    obtain ⟨read, hread, rfl⟩ := List.mem_map.1 member
    obtain ⟨hget⟩ := made read hread
    obtain ⟨p, hp, h⟩ := exists_of_bind_eq_ok hget
    cases h
    exact (GetOptions.assembled hp).ofProjection

/-- The condition and the change of a part use one name, and a change that comes to nothing uses
none. -/
theorem isClosed_of_built_transaction :
    ∃ a request,
      TransactAction.update "t" (.ofList [("k", .text "1")])
        { conditions := [.compare .lt ⟨[.name "n"]⟩ (.number "9")]
          actions := [.increment ⟨[.name "n"]⟩ (.number "1"), .add ⟨[.name "s"]⟩ (.textSet [])] } =
        .ok a ∧
      TransactWriteOptions.compose {} [a] "token" = .ok request ∧
      request.entries.flatMap TransactWrite.Entry.carried =
        [⟨[some "#n0 < :v0", some "SET #n0 = if_not_exists(#n0, :v1) + :v2"],
          .ofList [("#n0", "n")],
          .ofList [(":v0", .number "9"), (":v1", .number "0"), (":v2", .number "1")]⟩] ∧
      ∀ c ∈ request.entries.flatMap TransactWrite.Entry.carried, c.IsClosed := by
  let a : TransactAction :=
    ⟨.update,
      { table := "t"
        key := .ofList [("k", .text "1")]
        condition := some "#n0 < :v0"
        update := some "SET #n0 = if_not_exists(#n0, :v1) + :v2"
        names := .ofList [("#n0", "n")]
        values := .ofList
          [(":v0", .number "9"), (":v1", .number "0"), (":v2", .number "1")] }⟩
  have made : TransactAction.update "t" (.ofList [("k", .text "1")])
      { conditions := [.compare .lt ⟨[.name "n"]⟩ (.number "9")]
        actions := [.increment ⟨[.name "n"]⟩ (.number "1"), .add ⟨[.name "s"]⟩ (.textSet [])] } =
      .ok a := by
    decide +kernel
  refine ⟨a, _, made, rfl, rfl, fun c hc => ?_⟩
  obtain ⟨entry, member, part⟩ := List.mem_flatMap.1 hc
  refine isClosed_of_built (@Built.transactWrite [a] {} "token" _ ?_ rfl entry member c part)
  intro b hb
  obtain rfl := List.mem_singleton.1 hb
  exact .update made

end TableClient
