import TableClient.Client
import TableClient.Proofs.Faults
import TableClient.Proofs.Scan

/-! What is not accepted is never sent.

Every call of a client first brings its arguments into a request. If that fails, the call has
failed: its failure says that the input is not accepted, and is the same for every client and
every store. If it succeeds, the call sends something, and no check comes after that
(`Call.Checked`): where input is checked again, it has passed the same check before. So the
failures of a call that are found without the store are exactly those of its request
(`rejected_unsent`). -/
namespace TableClient

/-! ### Failures that are found without the store -/

/-- Whether a failure says that the input is not accepted. -/
def Failure.isLocal : Failure → Bool
  | .rejected _ | .expression _ => true
  | .timeout _ | .transient _ | .fatal _ => false

/-- It is no use to try again what is not accepted. -/
theorem Failure.isRetryable_of_isLocal {e : Failure} (h : e.isLocal = true) :
    e.isRetryable = false := by
  cases e with
  | rejected | expression | fatal => rfl
  | timeout | transient => cases h

/-- What comes of an attempt is not a failure of the input. -/
theorem Arrival.isLocal_of_outcome {op : Operation} {arrival : Arrival op} {deadline : Duration}
    {e : Failure} (h : arrival.outcome deadline = .error e) : e.isLocal = false := by
  cases arrival with
  | reply => cases h
  | late =>
    cases h
    rfl
  | failed error =>
    cases h
    unfold Failure.ofTransport
    split <;> rfl

/-! ### Calls that go to the store -/

namespace Call
variable {α β : Type} {rounds : Nat}

/-- A call that is cut only where it has used up its rounds, and that fails only for reasons that
lie with the store. -/
structure Settles (rounds : Nat) (x : Call α) : Prop where
  cut : ∀ es, x.run.Plays es none → rounds ≤ es.length
  fails : ∀ es e, x.run.Plays es (some (.error e)) → e.isLocal = false

/-- A call of this kind that sends something. -/
structure Travels (rounds : Nat) (x : Call α) : Prop extends Settles rounds x where
  sends : ∀ es result, x.run.Plays es result → es ≠ []

namespace Settles

theorem pure (a : α) : Settles rounds (Pure.pure a) where
  cut := by
    rintro es ⟨-, h⟩
    cases h
  fails := by
    rintro es e ⟨-, h⟩
    cases h

/-- A call that has no rounds left. -/
theorem giveUp : Settles 0 (ExceptT.mk .cut : Call α) where
  cut _ _ := Nat.zero_le _
  fails := by
    rintro es e ⟨-, h⟩
    cases h

theorem ite {c : Prop} [Decidable c] {x y : Call α} (h : c → Settles rounds x)
    (h' : ¬c → Settles rounds y) : Settles rounds (if c then x else y) := by
  split
  · next holds => exact h holds
  · next fails => exact h' fails

/-- Nothing is sent while a call waits. -/
theorem wait {x : Call α} (h : Settles rounds x) (length : Duration) :
    Settles rounds (ExceptT.lift (Dialogue.wait length) >>= fun _ => x) :=
  ⟨fun es cut => h.cut es cut, fun es e failed => h.fails es e failed⟩

end Settles

namespace Travels

theorem send (s : Settings) (op : Operation) (request : op.Request) :
    Travels rounds (TableClient.send s op request) where
  cut es cut := by
    obtain ⟨earlier, last, deadline, -, -, result⟩ := plays_attempts cut
    cases result
  fails es e failed := by
    obtain ⟨earlier, last, deadline, -, -, result⟩ := plays_attempts failed
    exact Arrival.isLocal_of_outcome (Option.some.inj result).symm
  sends es result plays := by
    obtain ⟨earlier, last, deadline, rfl, -, -⟩ := plays_attempts plays
    simp

/-- What comes after a request is one round behind. -/
theorem bind {x : Call α} {f : α → Call β} (hx : Travels (rounds + 1) x)
    (hf : ∀ a, Settles rounds (f a)) : Travels (rounds + 1) (x >>= f) where
  cut es cut := by
    rcases plays_bind.1 cut with ⟨h, -⟩ | ⟨e, -, h⟩ | ⟨a, before, after, rfl, h, later⟩
    · exact hx.cut es h
    · cases h
    · have sent := List.length_pos_iff.2 (hx.sends before _ h)
      have behind := (hf a).cut after later
      rw [List.length_append]
      omega
  fails es e failed := by
    rcases plays_bind.1 failed with ⟨-, h⟩ | ⟨e', h, same⟩ | ⟨a, before, after, rfl, h, later⟩
    · cases h
    · cases same
      exact hx.fails es e h
    · exact (hf a).fails after e later
  sends es result plays := by
    rcases plays_bind.1 plays with ⟨h, -⟩ | ⟨e, h, -⟩ | ⟨a, before, after, rfl, h, later⟩
    · exact hx.sends es _ h
    · exact hx.sends es _ h
    · simp [hx.sends before _ h]

theorem map {x : Call α} (h : Travels rounds x) (g : α → β) :
    Travels rounds (x >>= fun a => Pure.pure (g a)) where
  cut es cut := by
    obtain ⟨before, plays, same⟩ := plays_map.1 cut
    rw [Option.map_eq_none_iff.1 same.symm] at plays
    exact h.cut es plays
  fails es e failed := by
    obtain ⟨before, plays, same⟩ := plays_map.1 failed
    obtain ⟨outcome, rfl, failed⟩ := Option.map_eq_some_iff.1 same.symm
    cases outcome with
    | ok a => cases failed
    | error e' =>
      cases failed
      exact h.fails es e plays
  sends es result plays := by
    obtain ⟨before, plays, -⟩ := plays_map.1 plays
    exact h.sends es before plays

/-- Of several calls that are started at once each goes to the store, if there are any. -/
theorem all {calls : List (Call α)} (some : calls ≠ [])
    (h : ∀ x ∈ calls, Travels rounds x) : Travels rounds (Call.all calls) where
  cut es cut := by
    obtain ⟨tracks, ends, turns, plays, result⟩ := (plays_all rfl).1 cut
    obtain ⟨i, missing⟩ := together_eq_none_iff.1 result.symm
    have own := plays i
    rw [missing] at own
    exact ((h _ (List.getElem_mem i.isLt)).cut _ own).trans (turns.length_le i)
  fails es e failed := by
    obtain ⟨tracks, ends, turns, plays, result⟩ := (plays_all rfl).1 failed
    obtain ⟨i, own⟩ := exists_of_together_eq_error result.symm
    have own := own ▸ plays i
    exact (h _ (List.getElem_mem i.isLt)).fails _ e own
  sends es result plays := by
    obtain ⟨tracks, ends, turns, plays, -⟩ := (plays_all rfl).1 plays
    let first : Fin calls.length := ⟨0, List.length_pos_iff.2 some⟩
    obtain ⟨x, sent⟩ := List.exists_mem_of_ne_nil _
      ((h _ (List.getElem_mem first.isLt)).sends _ _ (plays first))
    exact List.ne_nil_of_mem (turns.mem_of_track sent)

end Travels

end Call

/-! ### Pages, chunks and segments -/

section Rounds
variable {op : Operation} {s : Settings} {rounds : Nat}

theorem travels_paginateFrom_succ {ι κ : Type} {paged : Paged op ι κ} {paging : Paging}
    (h : ∀ request before, Call.Settles rounds (paginateFrom s paged paging rounds request before))
    (request : op.Request) (before : Aggregate Float ι κ) :
    Call.Travels (rounds + 1) (paginateFrom s paged paging (rounds + 1) request before) := by
  refine (Call.Travels.send s op request).bind fun reply => ?_
  refine .ite (fun _ => .pure _) fun _ => .ite (fun _ => .pure _) fun _ => ?_
  split
  · exact .pure _
  · exact h _ _

theorem settles_paginateFrom {ι κ : Type} (paged : Paged op ι κ) (paging : Paging)
    (request : op.Request) (before : Aggregate Float ι κ) :
    Call.Settles rounds (paginateFrom s paged paging rounds request before) := by
  induction rounds generalizing request before with
  | zero => exact .giveUp
  | succ rounds ih => exact (travels_paginateFrom_succ ih request before).toSettles

/-- Reading page by page sends a request for the first page. -/
theorem travels_paginate {ι κ : Type} (paged : Paged op ι κ) (hrounds : 0 < rounds)
    (request : op.Request) (paging : Paging) :
    Call.Travels rounds (paginate s paged rounds request paging) := by
  cases rounds with
  | zero => cases hrounds
  | succ rounds => exact travels_paginateFrom_succ (settles_paginateFrom paged paging) request ∅

theorem travels_processFrom_succ {batched : Batched op}
    (h : ∀ round request before,
      Call.Settles rounds (processFrom s batched rounds round request before))
    (round : Nat) (request : op.Request) (before : op.Reply) :
    Call.Travels (rounds + 1) (processFrom s batched (rounds + 1) round request before) := by
  refine (Call.Travels.send s op request).bind fun reply => ?_
  dsimp only
  split
  · exact .pure _
  · exact (h _ _ _).wait _

theorem settles_processFrom (batched : Batched op) (round : Nat) (request : op.Request)
    (before : op.Reply) :
    Call.Settles rounds (processFrom s batched rounds round request before) := by
  induction rounds generalizing round request before with
  | zero => exact .giveUp
  | succ rounds ih => exact (travels_processFrom_succ ih round request before).toSettles

/-- Requests that are processed at once are all sent. -/
theorem travels_processAll (batched : Batched op) (hrounds : 0 < rounds)
    {requests : List op.Request} (some : requests ≠ []) :
    Call.Travels rounds (processAll s batched rounds requests) := by
  refine (Call.Travels.all (by simpa using some) fun call member => ?_).map _
  obtain ⟨request, -, rfl⟩ := List.mem_map.1 member
  cases rounds with
  | zero => cases hrounds
  | succ rounds => exact travels_processFrom_succ (settles_processFrom batched) 1 request _

theorem chunks_ne_nil {υ : Type} {size : Nat} {units : List υ} (some : units ≠ []) :
    chunks size units ≠ [] := by
  intro none
  have flat := flatten_chunks size units
  rw [none] at flat
  exact some flat.symm

/-- A scan sends a request, for the whole or for each segment. -/
theorem Scan.Request.travels_run (request : Scan.Request) (hrounds : 0 < rounds) (paging : Paging)
    (segments : Option Nat) : Call.Travels rounds (request.run s rounds paging segments) := by
  unfold run
  cases planned : request.plan? paging segments with
  | none => exact travels_paginate _ hrounds _ _
  | some plan =>
    have total : 0 < plan.total := by
      unfold plan? at planned
      split at planned
      · obtain ⟨requested, -, rfl⟩ := Option.map_eq_some_iff.1 planned
        exact SegmentPlan.total_pos _ _
      · cases planned
    refine (Call.Travels.all ?_ fun call member => ?_).map _
    · simp [SegmentPlan.requests_eq, total.ne']
    · obtain ⟨part, -, rfl⟩ := List.mem_map.1 member
      exact travels_paginate _ hrounds _ _

end Rounds

/-! ### Requests of calls -/

section Alike
variable {α β γ δ : Type}

/-- Two outcomes fail alike: the input is not accepted, for the same reason. -/
structure FailAlike (x : Outcome α) (y : Outcome β) : Prop where
  same : error? x = error? y
  isLocal : ∀ e, error? x = some e → e.isLocal = true

namespace FailAlike

theorem ok (a : α) (b : β) : FailAlike (.ok a) (.ok b) := by
  refine ⟨rfl, fun e failed => ?_⟩
  cases failed

theorem error {e : Failure} (h : e.isLocal = true) :
    FailAlike (.error e : Outcome α) (.error e : Outcome β) := by
  refine ⟨rfl, fun e' same => ?_⟩
  cases same
  exact h

/-- What comes after steps that fail alike, if it fails alike whatever they came to. -/
theorem bind {x : Outcome α} {y : Outcome β} {f : α → Outcome γ} {g : β → Outcome δ}
    (h : FailAlike x y) (hf : ∀ a b, FailAlike (f a) (g b)) :
    FailAlike (x >>= f) (y >>= g) := by
  obtain ⟨same, isLocal⟩ := h
  cases x with
  | error e =>
    cases y with
    | error e' =>
      obtain rfl := Option.some.inj same
      exact .error (isLocal e rfl)
    | ok b => cases same
  | ok a =>
    cases y with
    | error e' => cases same
    | ok b => exact hf a b

/-- What comes after one step, if it fails alike. -/
theorem after {x : Outcome α} {f : α → Outcome γ} {g : α → Outcome δ} (h : FailAlike x x)
    (hf : ∀ a, FailAlike (f a) (g a)) : FailAlike (x >>= f) (x >>= g) := by
  cases x with
  | error e => exact .error (h.isLocal e rfl)
  | ok a => exact hf a

/-- A check comes before what it guards. -/
theorem guarded {c : Prop} [Decidable c] {reason : Rejection} {f : PUnit → Outcome α}
    {g : PUnit → Outcome β} (h : FailAlike (f ⟨⟩) (g ⟨⟩)) :
    FailAlike (if c then MonadExcept.throw (.rejected reason) >>= f else f ⟨⟩)
      (if c then MonadExcept.throw (.rejected reason) >>= g else g ⟨⟩) := by
  split
  · exact .error rfl
  · exact h

/-- The expressions decide whether parameters can be assembled. -/
theorem assemble (p q : Parameters) (e : ExpressionSet) :
    FailAlike (p.assemble e) (q.assemble e) := by
  constructor
  · rw [Parameters.error?_assemble, Parameters.error?_assemble]
  · intro failure failed
    rw [Parameters.error?_assemble] at failed
    obtain ⟨fault, -, rfl⟩ := Option.map_eq_some_iff.1 failed
    rfl

end FailAlike

end Alike

theorem Key.validate_failAlike (key : Key) (most : Nat) :
    FailAlike (key.validate most) (key.validate most) := by
  unfold validate
  split
  · exact .error rfl
  · split
    · exact .error rfl
    · exact .ok _ _

theorem Key.validateAll_failAlike (keys : List Key) :
    FailAlike (Key.validateAll keys) (Key.validateAll keys) := by
  unfold validateAll
  dsimp only
  apply FailAlike.guarded
  induction keys with
  | nil => exact .ok _ _
  | cons key rest ih => exact (key.validate_failAlike _).after fun _ => ih

theorem wireLimit_failAlike (limit : Option Nat) :
    FailAlike (wireLimit limit) (wireLimit limit) := by
  match limit with
  | none => exact .ok _ _
  | some 0 => exact .error rfl
  | some (n + 1) => exact .ok _ _

theorem Key.partitionCondition_failAlike (key : Key) :
    FailAlike key.partitionCondition key.partitionCondition := by
  refine (key.validate_failAlike 1).after fun _ => ?_
  split
  · exact .ok _ _
  · exact .error rfl

section Requests
variable (table table' : String)

theorem GetOptions.failAlike (o : GetOptions) (key : Key) :
    FailAlike (o.finalize table key) (o.finalize table' key) :=
  ((key.validate_failAlike _).after fun _ => .assemble _ _ _).bind fun _ _ => .ok _ _

theorem PutOptions.failAlike (o : PutOptions) (item : Item) :
    FailAlike (o.finalize table item) (o.finalize table' item) := by
  refine FailAlike.bind ?_ fun _ _ => .ok _ _
  unfold parameters
  dsimp only
  apply FailAlike.guarded
  exact .assemble _ _ _

theorem UpdateOptions.failAlike (o : UpdateOptions) (key : Key) :
    FailAlike (o.finalize table key) (o.finalize table' key) :=
  ((key.validate_failAlike _).after fun _ => .assemble _ _ _).bind fun _ _ => .ok _ _

theorem DeleteOptions.failAlike (o : DeleteOptions) (key : Key) :
    FailAlike (o.finalize table key) (o.finalize table' key) :=
  ((key.validate_failAlike _).after fun _ => .assemble _ _ _).bind fun _ _ => .ok _ _

theorem ReadOptions.failAlike (o : ReadOptions) :
    FailAlike (o.parameters table) (o.parameters table') :=
  (wireLimit_failAlike o.limit).after fun _ => .ok _ _

theorem QueryOptions.failAlike (o : QueryOptions) (partition : Key) :
    FailAlike (o.finalize table partition) (o.finalize table' partition) := by
  refine partition.partitionCondition_failAlike.after fun condition => ?_
  refine (o.toReadOptions.failAlike table table').bind fun p q => ?_
  exact (FailAlike.assemble _ _ _).bind fun _ _ => .ok _ _

theorem ScanOptions.failAlike (o : ScanOptions) (segments segments' : Nat) :
    FailAlike (o.finalize table segments) (o.finalize table' segments') := by
  refine (o.toReadOptions.failAlike table table').bind fun p q => ?_
  exact (FailAlike.assemble _ _ _).bind fun _ _ => .ok _ _

theorem ListTablesOptions.failAlike (o : ListTablesOptions) : FailAlike o.finalize o.finalize := by
  unfold finalize
  dsimp only
  apply FailAlike.guarded
  exact (wireLimit_failAlike o.limit).after fun _ => .ok _ _

theorem BatchGetOptions.failAlike (o : BatchGetOptions) (keys : List Key) :
    FailAlike (o.finalize table keys) (o.finalize table' keys) := by
  refine (Key.validateAll_failAlike keys).after fun _ => ?_
  exact (FailAlike.assemble _ _ _).bind fun _ _ => .ok _ _

theorem BatchWriteOptions.failAlike_puts (o : BatchWriteOptions) (items : List Item) :
    FailAlike (o.finalizePuts table items) (o.finalizePuts table' items) := by
  unfold finalizePuts
  dsimp only
  apply FailAlike.guarded
  exact .ok _ _

theorem BatchWriteOptions.failAlike_deletes (o : BatchWriteOptions) (keys : List Key) :
    FailAlike (o.finalizeDeletes table keys) (o.finalizeDeletes table' keys) :=
  (Key.validateAll_failAlike keys).after fun _ => .ok _ _

theorem validateTransactSize_failAlike (size : Nat) :
    FailAlike (validateTransactSize size) (validateTransactSize size) := by
  unfold validateTransactSize
  split
  · exact .error rfl
  · split
    · exact .error rfl
    · exact .ok _ _

theorem TransactAction.failAlike_entries (actions : List TransactAction) :
    FailAlike (actions.mapM entry) (actions.mapM entry) := by
  induction actions with
  | nil => exact .ok _ _
  | cons a rest ih =>
    rw [List.mapM_cons]
    have own : FailAlike a.entry a.entry := by
      unfold entry
      dsimp only
      split
      · split
        · exact .error rfl
        · exact .ok _ _
      · exact .ok _ _
      · exact .ok _ _
      · split
        · exact .error rfl
        · exact .ok _ _
    exact own.after fun _ => ih.after fun _ => .ok _ _

theorem TransactWriteOptions.failAlike (o : TransactWriteOptions) (actions : List TransactAction)
    (fresh fresh' : String) : FailAlike (o.compose actions fresh) (o.compose actions fresh') := by
  refine (validateTransactSize_failAlike _).after fun _ => ?_
  exact (TransactAction.failAlike_entries actions).after fun _ => .ok _ _

theorem TransactRead.failAlike (reads : List TransactRead)
    (reportCapacity : Option CapacityReport) :
    FailAlike (compose reads reportCapacity) (compose reads reportCapacity) :=
  (validateTransactSize_failAlike _).after fun _ => .ok _ _

end Requests

/-! ### Calls of a client -/

/-- A call of a client with its arguments, by what it returns. -/
inductive ClientCall : Type → Type where
  | get (key : Key) (o : GetOptions) : ClientCall (Option Item)
  | getReply (key : Key) (o : GetOptions) : ClientCall GetItem.Reply
  | put (item : Item) (o : PutOptions) : ClientCall Item
  | putReply (item : Item) (o : PutOptions) : ClientCall WriteReply
  | update (key : Key) (o : UpdateOptions) : ClientCall Item
  | updateReply (key : Key) (o : UpdateOptions) : ClientCall WriteReply
  | delete (key : Key) (o : DeleteOptions) : ClientCall Item
  | deleteReply (key : Key) (o : DeleteOptions) : ClientCall WriteReply
  | query (partition : Key) (o : QueryOptions) : ClientCall (List Item)
  | queryPages (partition : Key) (o : QueryOptions) : ClientCall (Aggregate Float Item Key)
  | scan (o : ScanOptions) : ClientCall (List Item)
  | scanPages (o : ScanOptions) : ClientCall (Aggregate Float Item Key)
  | listTables (o : ListTablesOptions) : ClientCall (List String)
  | listTablesPages (o : ListTablesOptions) : ClientCall (Aggregate Float String String)
  | batchGet (keys : List Key) (o : BatchGetOptions) : ClientCall (List Item)
  | batchGetReply (keys : List Key) (o : BatchGetOptions) : ClientCall BatchGet.Reply
  | batchPut (items : List Item) (o : BatchWriteOptions) : ClientCall (List Item)
  | batchPutReply (items : List Item) (o : BatchWriteOptions) : ClientCall BatchWrite.Reply
  | batchDelete (keys : List Key) (o : BatchWriteOptions) : ClientCall BatchWrite.Reply
  | transactWrite (actions : List TransactAction) (o : TransactWriteOptions) :
    ClientCall TransactWrite.Reply
  | transactGet (reads : List TransactRead) : ClientCall (List (Option Item))
  | transactGetReply (reads : List TransactRead) (reportCapacity : Option CapacityReport) :
    ClientCall TransactGet.Reply

namespace ClientCall
variable {α : Type}

/-- Makes a call. -/
def make (c : Client) (fresh : String) (rounds : Nat) : {α : Type} → ClientCall α → Call α
  | _, .get key o => c.get key o
  | _, .getReply key o => c.getReply key o
  | _, .put item o => c.put item o
  | _, .putReply item o => c.putReply item o
  | _, .update key o => c.update key o
  | _, .updateReply key o => c.updateReply key o
  | _, .delete key o => c.delete key o
  | _, .deleteReply key o => c.deleteReply key o
  | _, .query partition o => c.query rounds partition o
  | _, .queryPages partition o => c.queryPages rounds partition o
  | _, .scan o => c.scan rounds o
  | _, .scanPages o => c.scanPages rounds o
  | _, .listTables o => c.listTables rounds o
  | _, .listTablesPages o => c.listTablesPages rounds o
  | _, .batchGet keys o => c.batchGet rounds keys o
  | _, .batchGetReply keys o => c.batchGetReply rounds keys o
  | _, .batchPut items o => c.batchPut rounds items o
  | _, .batchPutReply items o => c.batchPutReply rounds items o
  | _, .batchDelete keys o => c.batchDelete rounds keys o
  | _, .transactWrite actions o => c.transactWrite fresh actions o
  | _, .transactGet reads => c.transactGet reads
  | _, .transactGetReply reads reportCapacity => c.transactGetReply reads reportCapacity

/-- Why the request of a call cannot be composed, if it cannot. -/
def rejection? (c : Client) (fresh : String) : {α : Type} → ClientCall α → Option Failure
  | _, .get key o | _, .getReply key o => error? (o.finalize c.table key)
  | _, .put item o | _, .putReply item o => error? (o.finalize c.table item)
  | _, .update key o | _, .updateReply key o => error? (o.finalize c.table key)
  | _, .delete key o | _, .deleteReply key o => error? (o.finalize c.table key)
  | _, .query partition o | _, .queryPages partition o => error? (o.finalize c.table partition)
  | _, .scan o | _, .scanPages o => error? (o.finalize c.table c.settings.scanSegments)
  | _, .listTables o | _, .listTablesPages o => error? o.finalize
  | _, .batchGet keys o | _, .batchGetReply keys o => error? (o.finalize c.table keys)
  | _, .batchPut items o | _, .batchPutReply items o => error? (o.finalizePuts c.table items)
  | _, .batchDelete keys o => error? (o.finalizeDeletes c.table keys)
  | _, .transactWrite actions o => error? (o.compose actions fresh)
  | _, .transactGet reads => error? (TransactRead.compose reads none)
  | _, .transactGetReply reads reportCapacity => error? (TransactRead.compose reads reportCapacity)

/-- What is rejected is the arguments, whichever client makes the call. -/
theorem failAlike (call : ClientCall α) (c c' : Client) (fresh fresh' : String) :
    call.rejection? c fresh = call.rejection? c' fresh' ∧
      ∀ e, call.rejection? c fresh = some e → e.isLocal = true := by
  -- the requests of a call for two clients fail alike
  have of_alike {ρ : Type} {x y : Outcome ρ} (h : FailAlike x y) :
      error? x = error? y ∧ ∀ e, error? x = some e → e.isLocal = true := ⟨h.same, h.isLocal⟩
  cases call with
  | get key o | getReply key o => exact of_alike (o.failAlike _ _ key)
  | put item o | putReply item o => exact of_alike (o.failAlike _ _ item)
  | update key o | updateReply key o => exact of_alike (o.failAlike _ _ key)
  | delete key o | deleteReply key o => exact of_alike (o.failAlike _ _ key)
  | query partition o | queryPages partition o => exact of_alike (o.failAlike _ _ partition)
  | scan o | scanPages o => exact of_alike (o.failAlike _ _ _ _)
  | listTables o | listTablesPages o => exact of_alike o.failAlike
  | batchGet keys o | batchGetReply keys o => exact of_alike (o.failAlike _ _ keys)
  | batchPut items o | batchPutReply items o => exact of_alike (o.failAlike_puts _ _ items)
  | batchDelete keys o => exact of_alike (o.failAlike_deletes _ _ keys)
  | transactWrite actions o => exact of_alike (o.failAlike actions _ _)
  | transactGet reads => exact of_alike (TransactRead.failAlike reads none)
  | transactGetReply reads reportCapacity =>
    exact of_alike (TransactRead.failAlike reads reportCapacity)

end ClientCall

/-! ### Nothing is sent before all checks, and nothing is checked after -/

/-- A call that fails with a rejection, if there is one, before it sends anything; if there is
none, it goes to the store. -/
structure Call.Checked {α : Type} (rounds : Nat) (rejection : Option Failure) (x : Call α) :
    Prop where
  stops : ∀ e, rejection = some e → x.run = .done (.error e)
  travels : rejection = none → Travels rounds x

namespace Call.Checked
variable {α β : Type} {rounds : Nat} {rejection : Option Failure}

/-- A call that first composes its request. -/
theorem ofOutcome {outcome : Outcome α} {f : α → Call β}
    (h : ∀ a, outcome = .ok a → Travels rounds (f a)) :
    Checked rounds (error? outcome) (Call.ofOutcome outcome >>= f) where
  stops e failed := by
    rw [error?_eq_some_iff.1 failed]
    rfl
  travels passed := by
    obtain ⟨a, passed⟩ := error?_eq_none_iff.1 passed
    rw [passed]
    exact h a passed

theorem map {x : Call α} (h : Checked rounds rejection x) (g : α → β) :
    Checked rounds rejection (x >>= fun a => Pure.pure (g a)) where
  stops e failed := by
    have stopped : (x >>= fun a => Pure.pure (g a)).run =
        x.run.bind (ExceptT.bindCont fun a => Pure.pure (g a)) := rfl
    rw [stopped, h.stops e failed]
    rfl
  travels passed := (h.travels passed).map g

end Call.Checked

/-- What a call comes to may be dropped. -/
theorem Call.discard_bind {α β : Type} (x : Call α) (b : β) :
    (discard x >>= fun _ => pure b) = x >>= fun _ => pure b := by
  rw [Functor.discard, map_const, Function.comp_apply, ← bind_pure_comp, bind_assoc]
  rfl

theorem Call.Travels.drop {α β : Type} {rounds : Nat} {x : Call α} (h : Travels rounds x) (b : β) :
    Travels rounds (discard x >>= fun _ => pure b) := by
  rw [discard_bind]
  exact h.map _

theorem Call.Checked.drop {α β : Type} {rounds : Nat} {rejection : Option Failure} {x : Call α}
    (h : Checked rounds rejection x) (b : β) :
    Checked rounds rejection (discard x >>= fun _ => pure b) := by
  rw [discard_bind]
  exact h.map _

section Batches
variable {s : Settings} {rounds : Nat}

theorem Key.ne_nil_of_validateAll {keys : List Key} (h : validateAll keys = .ok ()) :
    keys ≠ [] := by
  rintro rfl
  cases h

/-- Keys that were checked pass when they are checked again. -/
theorem BatchRead.travels_run {b : BatchRead} (checked : Key.validateAll b.keys = .ok ())
    (hrounds : 0 < rounds) : Call.Travels rounds (b.run s rounds) := by
  have same : b.run s rounds = processAll s Batched.get rounds b.requests := by
    unfold run
    rw [checked]
    rfl
  rw [same]
  refine travels_processAll _ hrounds ?_
  simpa [requests] using chunks_ne_nil (Key.ne_nil_of_validateAll checked)

theorem BatchChange.travels_run {b : BatchChange} (some : b.entries ≠ []) (hrounds : 0 < rounds) :
    Call.Travels rounds (b.run s rounds) := by
  unfold run
  rw [if_neg (by simpa using some)]
  refine travels_processAll _ hrounds ?_
  simpa [requests] using chunks_ne_nil some

theorem BatchGetOptions.travels_run {o : BatchGetOptions} {table : String} {keys : List Key}
    {pending : Pending BatchRead} (h : o.finalize table keys = .ok pending)
    (hrounds : 0 < rounds) : Call.Travels rounds (pending.request.run s rounds) := by
  obtain ⟨⟨⟩, checked, h⟩ := exists_of_bind_eq_ok h
  obtain ⟨p, -, h⟩ := exists_of_bind_eq_ok h
  cases h
  exact BatchRead.travels_run checked hrounds

theorem BatchWriteOptions.travels_puts {o : BatchWriteOptions} {table : String}
    {items : List Item} {pending : Pending BatchChange}
    (h : o.finalizePuts table items = .ok pending) (hrounds : 0 < rounds) :
    Call.Travels rounds (pending.request.run s rounds) := by
  cases items with
  | nil => cases h
  | cons item rest =>
    cases h
    exact BatchChange.travels_run (List.cons_ne_nil _ _) hrounds

theorem BatchWriteOptions.travels_deletes {o : BatchWriteOptions} {table : String}
    {keys : List Key} {pending : Pending BatchChange}
    (h : o.finalizeDeletes table keys = .ok pending) (hrounds : 0 < rounds) :
    Call.Travels rounds (pending.request.run s rounds) := by
  obtain ⟨⟨⟩, checked, h⟩ := exists_of_bind_eq_ok h
  cases h
  exact BatchChange.travels_run (by simpa [change] using Key.ne_nil_of_validateAll checked) hrounds

end Batches

/-- Every call composes its request first, and then goes to the store. -/
theorem ClientCall.checked {α : Type} (call : ClientCall α) (c : Client) (fresh : String)
    {rounds : Nat} (hrounds : 0 < rounds) :
    Call.Checked rounds (call.rejection? c fresh) (call.make c fresh rounds) := by
  cases call with
  | getReply key o => exact .ofOutcome fun _ _ => .send _ _ _
  | get key o => exact .map (.ofOutcome fun _ _ => .send _ _ _) _
  | putReply item o => exact .ofOutcome fun _ _ => .send _ _ _
  | put item o => exact .ofOutcome fun _ _ => .drop (.send _ _ _) _
  | updateReply key o => exact .ofOutcome fun _ _ => .send _ _ _
  | update key o => exact .map (.ofOutcome fun _ _ => .send _ _ _) _
  | deleteReply key o => exact .ofOutcome fun _ _ => .send _ _ _
  | delete key o => exact .map (.ofOutcome fun _ _ => .send _ _ _) _
  | queryPages partition o => exact .ofOutcome fun _ _ => travels_paginate _ hrounds _ _
  | query partition o => exact .map (.ofOutcome fun _ _ => travels_paginate _ hrounds _ _) _
  | scanPages o => exact .ofOutcome fun pending _ => pending.request.travels_run hrounds _ _
  | scan o => exact .map (.ofOutcome fun pending _ => pending.request.travels_run hrounds _ _) _
  | listTablesPages o => exact .ofOutcome fun _ _ => travels_paginate _ hrounds _ _
  | listTables o => exact .map (.ofOutcome fun _ _ => travels_paginate _ hrounds _ _) _
  | batchGetReply keys o => exact .ofOutcome fun _ h => o.travels_run h hrounds
  | batchGet keys o => exact .map (.ofOutcome fun _ h => o.travels_run h hrounds) _
  | batchPutReply items o => exact .ofOutcome fun _ h => o.travels_puts h hrounds
  | batchPut items o => exact .drop (.ofOutcome fun _ h => o.travels_puts h hrounds) _
  | batchDelete keys o => exact .ofOutcome fun _ h => o.travels_deletes h hrounds
  | transactWrite actions o => exact .ofOutcome fun _ _ => .send _ _ _
  | transactGetReply reads reportCapacity => exact .ofOutcome fun _ _ => .send _ _ _
  | transactGet reads => exact .map (.ofOutcome fun _ _ => .send _ _ _) _

/-- **What is not accepted is never sent.** Whether a call is rejected, and why, depends on its
arguments alone, and it is no use to try again. A call that is rejected sends nothing. Any other
sends something, and if it fails, that is because an attempt took too long or because of what the
transport reported; it is given up only where it has used up its rounds. -/
theorem rejected_unsent {α : Type} (call : ClientCall α) {rounds : Nat} (hrounds : 0 < rounds)
    (c : Client) (fresh : String) :
    (∀ c' fresh', call.rejection? c' fresh' = call.rejection? c fresh) ∧
    (∀ e, call.rejection? c fresh = some e →
      e.isLocal = true ∧ e.isRetryable = false ∧
        (call.make c fresh rounds).run = .done (.error e)) ∧
    ∀ es result, (call.make c fresh rounds).run.Plays es result →
      (es = [] ↔ call.rejection? c fresh ≠ none) ∧
      (∀ e, result = some (.error e) → (e.isLocal = true ↔ call.rejection? c fresh = some e)) ∧
      (result = none → rounds ≤ es.length) := by
  have checked := call.checked c fresh hrounds
  have isLocal := (call.failAlike c c fresh fresh).2
  refine ⟨fun c' fresh' => (call.failAlike c' c fresh' fresh).1, fun e rejected => ?_, ?_⟩
  · have isLocal := isLocal e rejected
    exact ⟨isLocal, Failure.isRetryable_of_isLocal isLocal, checked.stops e rejected⟩
  · intro es result plays
    cases rejection : call.rejection? c fresh with
    | some e =>
      rw [checked.stops e rejection] at plays
      obtain ⟨rfl, rfl⟩ := plays
      refine ⟨by simp, fun e' failed => ?_, nofun⟩
      cases failed
      exact iff_of_true (isLocal e rejection) rfl
    | none =>
      have travels := checked.travels rejection
      refine ⟨by simpa using travels.sends es result plays, fun e failed => ?_, fun cut => ?_⟩
      · rw [failed] at plays
        simp [travels.fails es e plays]
      · rw [cut] at plays
        exact travels.cut es plays

/-- A batch with a key of no attributes is rejected; a list of tables is asked for. -/
theorem rejected_unsent_batch :
    let c : Client := ⟨"t", {}, rfl⟩
    let batch : ClientCall (List Item) := .batchGet [∅] {}
    let list : ClientCall (List String) := .listTables { limit := some 3 }
    batch.rejection? c "" = some (.rejected .emptyKey) ∧
      (batch.make c "" 1).run = .done (.error (.rejected .emptyKey)) ∧
      list.rejection? c "" = none ∧
      ∀ es result, (list.make c "" 1).run.Plays es result → es ≠ [] := by
  intro c batch list
  have rejected : batch.rejection? c "" = some (.rejected .emptyKey) := rfl
  have accepted : list.rejection? c "" = none := rfl
  obtain ⟨-, stops, -⟩ := rejected_unsent batch Nat.one_pos c ""
  obtain ⟨-, -, travels⟩ := rejected_unsent list Nat.one_pos c ""
  refine ⟨rejected, (stops _ rejected).2.2, accepted, fun es result plays nothing => ?_⟩
  exact (travels es result plays).1.1 nothing accepted

end TableClient
