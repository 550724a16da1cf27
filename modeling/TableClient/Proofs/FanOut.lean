import TableClient.Proofs.Batch
import TableClient.Proofs.Scan

/-! What parts that are served at once come to together.

A read or a change of many items is sent in slices, and a scan in segments. Each of these parts is
a sequence of requests of its own: a slice is asked for again until nothing of it is left
(`Batched.Resubmits`), and a segment is followed from page to page (`Paged.Follows`). A part that
fails stops no other. When all have ended, the first failure in the order of the parts is that of
the call, which then returns nothing else; if none has failed, what they came to is merged in their
order (`Joins`). How the parts took turns makes no difference (`parts_settle`). -/
namespace TableClient

/-! ### Parts together -/

section Joins
variable {α β : Type} {count : Nat} {combine : List α → β} {ends : Fin count → Option (Outcome α)}
  {result : Option (Outcome β)}

/-- What parts come to together. -/
inductive Joins (combine : List α → β) (ends : Fin count → Option (Outcome α)) :
    Option (Outcome β) → Prop where
  /-- One part is cut. -/
  | cut (i : Fin count) (h : ends i = none) : Joins combine ends none
  /-- All parts end, and those before one that fails are successes. -/
  | failed (i : Fin count) (e : Failure) (hends : ∀ j, ends j ≠ none)
      (hbefore : ∀ j < i, ∃ a, ends j = some (.ok a)) (h : ends i = some (.error e)) :
      Joins combine ends (some (.error e))
  /-- All parts are successes. -/
  | merged (values : Fin count → α) (h : ∀ i, ends i = some (.ok (values i))) :
      Joins combine ends (some (.ok (combine (List.ofFn values))))

/-- Several outcomes are a failure together if one of them is after successes only. -/
theorem mapM_eq_error_iff {l : List (Outcome α)} {e : Failure} :
    l.mapM id = .error e ↔
      ∃ i : Nat, l[i]? = some (.error e) ∧ ∀ j < i, ∃ a, l[j]? = some (.ok a) := by
  induction l with
  | nil => simp [pure, Except.pure]
  | cons outcome rest ih =>
    rw [List.mapM_cons]
    cases outcome with
    | error e' =>
      constructor
      · rintro ⟨⟩
        exact ⟨0, rfl, by simp⟩
      · rintro ⟨_ | i, hi, hbefore⟩
        · cases hi
          rfl
        · obtain ⟨a, ha⟩ := hbefore 0 (Nat.succ_pos i)
          cases ha
    | ok a =>
      have hrest : (do let a ← id (.ok a : Outcome α); let more ← rest.mapM id; pure (a :: more)) =
          .error e ↔ rest.mapM id = .error e := by
        cases rest.mapM id <;> simp [bind, Except.bind, pure, Except.pure]
      rw [hrest, ih]
      constructor
      · rintro ⟨i, hi, hbefore⟩
        refine ⟨i + 1, hi, fun j hj => ?_⟩
        cases j with
        | zero => exact ⟨a, rfl⟩
        | succ j => exact hbefore j (Nat.lt_of_succ_lt_succ hj)
      · rintro ⟨_ | i, hi, hbefore⟩
        · cases hi
        · exact ⟨i, hi, fun j hj => hbefore (j + 1) (Nat.succ_lt_succ hj)⟩

/-- Calls fail together with the first failure in their order, once all have ended. -/
theorem Call.together_eq_error_iff {e : Failure} :
    Call.together ends = some (.error e) ↔
      (∀ i, ends i ≠ none) ∧
        ∃ i, ends i = some (.error e) ∧ ∀ j < i, ∃ a, ends j = some (.ok a) := by
  by_cases hcut : ∃ i, ends i = none
  · rw [together_eq_none_iff.2 hcut]
    obtain ⟨i, hi⟩ := hcut
    constructor
    · intro h
      cases h
    · rintro ⟨hends, -⟩
      exact absurd hi (hends i)
  · obtain ⟨values, rfl⟩ := Dialogue.exists_values hcut
    rw [together_some, Option.some.injEq, mapM_eq_error_iff]
    simp only [List.getElem?_ofFn]
    constructor
    · rintro ⟨i, hi, hbefore⟩
      split at hi
      · next hlt =>
        refine ⟨fun j => by simp, ⟨i, hlt⟩, hi, fun j hj => ?_⟩
        obtain ⟨a, ha⟩ := hbefore j hj
        rw [dif_pos j.isLt] at ha
        exact ⟨a, ha⟩
      · cases hi
    · rintro ⟨-, i, hi, hbefore⟩
      refine ⟨i, by rw [dif_pos i.isLt]; exact hi, fun j hj => ?_⟩
      obtain ⟨a, ha⟩ := hbefore ⟨j, hj.trans i.isLt⟩ hj
      exact ⟨a, by rw [dif_pos (hj.trans i.isLt)]; exact ha⟩

/-- Parts come to one thing together. -/
theorem joins_iff :
    Joins combine ends result ↔ result = (Call.together ends).map (Except.map combine) := by
  constructor
  · rintro (⟨i, hi⟩ | ⟨i, e, hends, hbefore, hi⟩ | ⟨values, hvalues⟩)
    · rw [Call.together_eq_none_iff.2 ⟨i, hi⟩]
      rfl
    · rw [Call.together_eq_error_iff.2 ⟨hends, i, hi, hbefore⟩]
      rfl
    · exact (Call.map_together_eq_ok_iff.2 ⟨values, hvalues, rfl⟩).symm
  · rintro rfl
    cases htogether : Call.together ends with
    | none =>
      obtain ⟨i, hi⟩ := Call.together_eq_none_iff.1 htogether
      exact .cut i hi
    | some outcome =>
      cases outcome with
      | error e =>
        obtain ⟨hends, i, hi, hbefore⟩ := Call.together_eq_error_iff.1 htogether
        exact .failed i e hends hbefore hi
      | ok as =>
        obtain ⟨values, hvalues, rfl⟩ := Call.together_eq_ok_iff.1 htogether
        exact .merged values hvalues

end Joins

/-- A call of parts that are served at once. What a part sends, and what it comes to, is as if it
were served alone. -/
structure FansOut {s : Settings} {op : Operation} {α β : Type} {count : Nat} (call : Call β)
    (Completes : Fin count → List (Sent s op) → Option (Outcome α) → Prop)
    (combine : List α → β) : Prop where
  /-- Every part is completed, whatever the others come to, and the parts take turns. -/
  settles : ∀ {es : List Exchange} {result : Option (Outcome β)}, call.run.Plays es result →
    ∃ (sends : Fin count → List (Sent s op)) (ends : Fin count → Option (Outcome α)),
      (∀ i, Completes i (sends i) (ends i)) ∧
      Interleaves (fun i => (sends i).flatMap Sent.exchanges) es ∧ Joins combine ends result
  /-- Parts that are completed come to one thing together, in whatever way they take turns. -/
  anyOrder : ∀ (sends : Fin count → List (Sent s op)) (ends : Fin count → Option (Outcome α)),
    (∀ i, Completes i (sends i) (ends i)) →
    ∃ result, (∀ result', Joins combine ends result' ↔ result' = result) ∧
      ∀ es, Interleaves (fun i => (sends i).flatMap Sent.exchanges) es → call.run.Plays es result

/-- Calls that are started at once fan out. -/
theorem FansOut.of_plays {s : Settings} {op : Operation} {α β : Type} {count : Nat} {call : Call β}
    {Completes : Fin count → List (Sent s op) → Option (Outcome α) → Prop} {combine : List α → β}
    (parts : Fin count → Call α)
    (hcall : ∀ es result, call.run.Plays es result ↔
      ∃ (tracks : Fin count → List Exchange) (ends : Fin count → Option (Outcome α)),
        Interleaves tracks es ∧ (∀ i, (parts i).run.Plays (tracks i) (ends i)) ∧
        result = (Call.together ends).map (Except.map combine))
    (hparts : ∀ i es result, (parts i).run.Plays es result ↔
      ∃ sends : List (Sent s op), es = sends.flatMap Sent.exchanges ∧ Completes i sends result) :
    FansOut call Completes combine := by
  constructor
  · intro es result h
    obtain ⟨tracks, ends, hturns, hends, hresult⟩ := (hcall es result).1 h
    choose sends htracks hcompletes using fun i => (hparts i _ _).1 (hends i)
    refine ⟨sends, ends, hcompletes, ?_, joins_iff.2 hresult⟩
    rwa [← funext htracks]
  · intro sends ends hcompletes
    refine ⟨_, fun result' => joins_iff, fun es hturns => ?_⟩
    exact (hcall es _).2
      ⟨_, ends, hturns, fun i => (hparts i _ _).2 ⟨sends i, rfl, hcompletes i⟩, rfl⟩

/-! ### Requests for what is left -/

section Resubmits
variable {s : Settings} {op : Operation} {batched : Batched op}

/-- The replies that requests brought. -/
def replies (sends : List (Sent s op)) : List op.Reply :=
  sends.filterMap fun sent => sent.outcome.toOption

theorem replies_cons {sent : Sent s op} {reply : op.Reply} (h : sent.outcome = .ok reply)
    (rest : List (Sent s op)) : replies (sent :: rest) = reply :: replies rest := by
  simp [replies, h, Except.toOption]

/-- Whether a request is for what the reply to another left. -/
def Batched.Leaves (batched : Batched op) (before after : Sent s op) : Prop :=
  ∃ reply, before.outcome = .ok reply ∧
    batched.remainder before.request reply = some after.request

/-- Whether the last request failed, or its reply left nothing, or there are no rounds left. -/
def Batched.Ends (batched : Batched op) (rounds : Nat) (earlier : op.Reply)
    (sends : List (Sent s op)) (result : Option (Outcome op.Reply)) : Prop :=
  (∃ last ∈ sends.getLast?, ∃ e, last.outcome = .error e ∧ result = some (.error e)) ∨
  (∃ last ∈ sends.getLast?, ∃ reply, last.outcome = .ok reply ∧
    batched.remainder last.request reply = none ∧
    result = some (.ok ((replies sends).foldl batched.merge earlier))) ∨
  (sends.length = rounds ∧
    (∀ last ∈ sends.getLast?, ∃ reply rest, last.outcome = .ok reply ∧
      batched.remainder last.request reply = some rest) ∧ result = none)

/-- Whether requests, sent when there were some replies, ask for something and then for what is
left of it, in no more than a number of rounds, and come to a result. -/
structure Batched.Resubmits (batched : Batched op) (rounds : Nat) (earlier : op.Reply)
    (request : op.Request) (sends : List (Sent s op)) (result : Option (Outcome op.Reply)) :
    Prop where
  first : ∀ sent ∈ sends.head?, sent.request = request
  next : sends.IsChain batched.Leaves
  within : sends.length ≤ rounds
  ending : batched.Ends rounds earlier sends result

section Ends
variable {rounds : Nat} {earlier : op.Reply} {sent : Sent s op} {rest : List (Sent s op)}
  {result : Option (Outcome op.Reply)}

theorem Batched.ends_nil :
    batched.Ends rounds earlier ([] : List (Sent s op)) result ↔ rounds = 0 ∧ result = none := by
  simp [Ends, eq_comm]

theorem Batched.ends_failed {e : Failure} (houtcome : sent.outcome = .error e) :
    batched.Ends rounds earlier [sent] result ↔ result = some (.error e) := by
  simp [Ends, houtcome]

theorem Batched.ends_ended {reply : op.Reply} (houtcome : sent.outcome = .ok reply)
    (hnone : batched.remainder sent.request reply = none) :
    batched.Ends rounds earlier [sent] result ↔
      result = some (.ok (batched.merge earlier reply)) := by
  have hreplies : replies [sent] = [reply] := replies_cons houtcome []
  simp [Ends, houtcome, hnone, hreplies]

/-- Requests after one that left something end as they do with its reply among the earlier. -/
theorem Batched.ends_resent {reply : op.Reply} {left : op.Request}
    (houtcome : sent.outcome = .ok reply)
    (hleft : batched.remainder sent.request reply = some left) :
    batched.Ends (rounds + 1) earlier (sent :: rest) result ↔
      batched.Ends rounds (batched.merge earlier reply) rest result := by
  cases rest with
  | nil => simp [Ends, houtcome, hleft, eq_comm]
  | cons after rest =>
    simp only [Ends, List.getLast?_cons_cons, replies_cons houtcome, List.foldl_cons,
      List.length_cons, Nat.add_right_cancel_iff]

/-- A request that fails is all that is sent. -/
theorem Batched.Resubmits.failed {request : op.Request} {e : Failure}
    (hrequest : sent.request = request) (houtcome : sent.outcome = .error e) :
    batched.Resubmits (rounds + 1) earlier request [sent] (some (.error e)) :=
  ⟨by simpa using hrequest, .singleton _, by simp, (ends_failed houtcome).2 rfl⟩

/-- A request of which nothing is left is all that is sent. -/
theorem Batched.Resubmits.ended {request : op.Request} {reply : op.Reply}
    (hrequest : sent.request = request) (houtcome : sent.outcome = .ok reply)
    (hnone : batched.remainder sent.request reply = none) :
    batched.Resubmits (rounds + 1) earlier request [sent]
      (some (.ok (batched.merge earlier reply))) :=
  ⟨by simpa using hrequest, .singleton _, by simp, (ends_ended houtcome hnone).2 rfl⟩

/-- After a request that leaves nothing to ask for there is none. -/
theorem Batched.rest_eq_nil (h : (sent :: rest).IsChain batched.Leaves)
    (hnone : ∀ after, ¬batched.Leaves sent after) : rest = [] := by
  cases rest with
  | nil => rfl
  | cons after rest => exact absurd (List.isChain_cons_cons.1 h).1 (hnone after)

end Ends

/-- The plays of a call that asks for what is left are those in which requests do. -/
theorem plays_processFrom {rounds round : Nat} {request : op.Request} {earlier : op.Reply}
    {es : List Exchange} {result : Option (Outcome op.Reply)} :
    (processFrom s batched rounds round request earlier).run.Plays es result ↔
      ∃ sends : List (Sent s op), es = sends.flatMap Sent.exchanges ∧
        batched.Resubmits rounds earlier request sends result := by
  induction rounds generalizing round request earlier es with
  | zero =>
    constructor
    · rintro ⟨rfl, rfl⟩
      exact ⟨[], rfl, by simp, .nil, le_rfl, Batched.ends_nil.2 ⟨rfl, rfl⟩⟩
    · rintro ⟨sends, rfl, h⟩
      obtain rfl : sends = [] := List.eq_nil_of_length_eq_zero (Nat.le_zero.1 h.within)
      exact ⟨rfl, (Batched.ends_nil.1 h.ending).2⟩
  | succ rounds ih =>
    rw [plays_processFrom_succ]
    constructor
    · rintro ⟨sent, rfl, ⟨e, houtcome, rfl, rfl⟩ | ⟨reply, later, houtcome, rfl, hlater⟩⟩
      · exact ⟨[sent], by simp, .failed rfl houtcome⟩
      · cases hleft : batched.remainder sent.request reply with
        | none =>
          rw [hleft] at hlater
          obtain ⟨rfl, rfl⟩ := hlater
          exact ⟨[sent], by simp, .ended rfl houtcome hleft⟩
        | some left =>
          rw [hleft] at hlater
          obtain ⟨sends, rfl, hsends⟩ := ih.1 hlater
          refine ⟨sent :: sends, by simp, by simp, ?_, Nat.succ_le_succ hsends.within,
            (Batched.ends_resent houtcome hleft).2 hsends.ending⟩
          refine List.isChain_cons.2 ⟨fun after hafter => ⟨reply, houtcome, ?_⟩, hsends.next⟩
          rw [hleft, hsends.first after hafter]
    · rintro ⟨sends, rfl, h⟩
      cases sends with
      | nil => cases (Batched.ends_nil.1 h.ending).1
      | cons sent rest =>
        obtain rfl := h.first sent rfl
        refine ⟨sent, rfl, ?_⟩
        cases houtcome : sent.outcome with
        | error e =>
          obtain rfl := Batched.rest_eq_nil h.next fun after ⟨reply, hreply, _⟩ => by
            cases houtcome.symm.trans hreply
          exact .inl ⟨e, rfl, by simp, (Batched.ends_failed houtcome).1 h.ending⟩
        | ok reply =>
          refine .inr ⟨reply, rest.flatMap Sent.exchanges, rfl, rfl, ?_⟩
          cases hleft : batched.remainder sent.request reply with
          | none =>
            obtain rfl := Batched.rest_eq_nil h.next fun after ⟨reply', hreply, hafter⟩ => by
              obtain rfl := Except.ok.inj (houtcome.symm.trans hreply)
              cases hleft.symm.trans hafter
            exact ⟨rfl, (Batched.ends_ended houtcome hleft).1 h.ending⟩
          | some left =>
            obtain ⟨hafter, hnext⟩ := List.isChain_cons.1 h.next
            refine ih.2 ⟨rest, rfl, fun after hmem => ?_, hnext,
              Nat.le_of_succ_le_succ h.within, (Batched.ends_resent houtcome hleft).1 h.ending⟩
            obtain ⟨reply', hreply, hrequest⟩ := hafter after hmem
            obtain rfl := Except.ok.inj (houtcome.symm.trans hreply)
            exact Option.some.inj (hrequest.symm.trans hleft)

end Resubmits

/-! ### Slices and segments -/

/-- What is asked for in slices fans out. -/
theorem FansOut.of_chunks {s : Settings} {op : Operation} (batched : Batched op) {υ : Type}
    {size : Nat} (hsize : 0 < size) (rounds : Nat) (units : List υ)
    (request : List υ → op.Request) :
    FansOut (s := s) (processAll s batched rounds ((chunks size units).map request))
      (fun i : Fin ((units.length + size - 1) / size) =>
        batched.Resubmits rounds batched.nothing (request (slice size units i)))
      (fun replies => replies.foldl batched.merge batched.nothing) := by
  have hcount : ((chunks size units).map request).length = (units.length + size - 1) / size := by
    rw [List.length_map, length_chunks hsize]
  refine .of_plays (fun i : Fin _ => process s batched rounds (request (slice size units i)))
    (fun es result => ?_) fun i es result => plays_processFrom
  have hslice (i : Fin ((units.length + size - 1) / size)) :
      ((chunks size units).map request)[i] = request (slice size units i) := by
    simp [getElem_chunks hsize]
  simp only [Batched.Portions.plays_processAll hcount, hslice]

/-- **Failure is all or nothing, and no order of events changes it.** The slices of a read of many
items, those of a change, and the segments of a scan are each served to their own end, whatever
becomes of the others and however they take turns. When all have ended, the call comes to the first
failure in their order, or else to what they came to, merged in their order. -/
theorem parts_settle :
    (∀ (b : BatchRead) (s : Settings) (rounds : Nat), Key.validateAll b.keys = .ok () →
      FansOut (s := s) (b.run s rounds)
        (fun i : Fin ((b.keys.length + 100 - 1) / 100) =>
          Batched.get.Resubmits rounds Batched.get.nothing (b.request (slice 100 b.keys i)))
        (fun replies => replies.foldl Batched.get.merge Batched.get.nothing)) ∧
    (∀ (b : BatchChange) (s : Settings) (rounds : Nat), b.entries ≠ [] →
      FansOut (s := s) (b.run s rounds)
        (fun i : Fin ((b.entries.length + 25 - 1) / 25) =>
          Batched.write.Resubmits rounds Batched.write.nothing (b.request (slice 25 b.entries i)))
        (fun replies => replies.foldl Batched.write.merge Batched.write.nothing)) ∧
    (∀ (request : Scan.Request) (s : Settings) (rounds : Nat) (paging : Paging)
        (segments : Option Nat) (plan : SegmentPlan), request.plan? paging segments = some plan →
      FansOut (s := s) (request.run s rounds paging segments)
        (fun i : Fin plan.total =>
          Paged.scan.Follows { limit := plan.limit } rounds [] (plan.part request i))
        (fun parts => (parts.foldl Aggregate.merge ∅).truncate? paging.limit)) := by
  refine ⟨?_, ?_, ?_⟩
  · intro b s rounds hvalid
    rw [BatchRead.run, hvalid]
    exact .of_chunks Batched.get (by decide) rounds b.keys b.request
  · intro b s rounds hne
    rw [BatchChange.run, List.isEmpty_eq_false_iff.2 hne]
    exact .of_chunks Batched.write (by decide) rounds b.entries b.request
  · intro request s rounds paging segments plan hplan
    exact .of_plays _ (fun es result => Scan.Request.plays_run_split hplan) fun i es result =>
      Paged.scan_overwrites.followsCursors s rounds _ _ es result

/-! ### Parts that fail -/

/-- A request whose first attempt fails for good. -/
def Sent.refused (s : Settings) (op : Operation) (request : op.Request) (e : TransportError)
    (h : e.isRetryable = false) : Sent s op where
  request := request
  exchanges := [⟨op, request, .failed e⟩]
  outcome := .error (.fatal e)
  plays := by
    have hfailure : Failure.ofTransport e = .fatal e := by simp [Failure.ofTransport, h]
    show (attempts s op request (s.backoff.maxAttempts - 1) 1).Plays _ _
    rw [attempts]
    refine ⟨.failed e, [], rfl, ?_⟩
    simp only [Arrival.outcome, hfailure]
    split
    · exact ⟨rfl, rfl⟩
    · exact ⟨rfl, rfl⟩

/-- A failure that no other attempt mends. -/
def garbled (op : Operation) : TransportError := .codec op "garbled"

/-- Two lists take turns, the members of the second first. -/
theorem Interleaves.second_first {ε : Type} (first second : List ε) :
    Interleaves (fun i : Fin 2 => if i = 0 then first else second) (second ++ first) := by
  refine ⟨second.map (Prod.mk 1) ++ first.map (Prod.mk 0), ?_, fun i => ?_⟩
  · simp [Function.comp_def]
  · match i with
    | 0 => simp [List.filter_map, Function.comp_def]
    | 1 => simp [List.filter_map, Function.comp_def]

/-- Of two parts that are served at once the second ends first: a failure of the first is still
that of the call. -/
theorem FansOut.plays_second_first {s : Settings} {op : Operation} {α β : Type} {call : Call β}
    {count : Nat} {Completes : Fin count → List (Sent s op) → Option (Outcome α) → Prop}
    {combine : List α → β} (h : FansOut call Completes combine) (hcount : count = 2)
    {first second : Sent s op} {e : Failure} {outcome : Outcome α}
    (hfirst : Completes ⟨0, by omega⟩ [first] (some (.error e)))
    (hsecond : Completes ⟨1, by omega⟩ [second] (some outcome)) :
    call.run.Plays (second.exchanges ++ first.exchanges) (some (.error e)) := by
  subst hcount
  obtain ⟨result, hresult, hplays⟩ := h.anyOrder (fun i => if i = 0 then [first] else [second])
    (fun i => if i = 0 then some (.error e) else some outcome) fun i => by
      match i with
      | 0 => exact hfirst
      | 1 => exact hsecond
  have hjoins : Joins combine (fun i : Fin 2 => if i = 0 then some (.error e) else some outcome)
      (some (.error e)) := by
    refine .failed 0 e (fun i => ?_) (fun i hi => absurd hi (Fin.not_lt_zero i)) rfl
    split <;> simp
  have htracks : (fun i : Fin 2 => (if i = 0 then [first] else [second]).flatMap Sent.exchanges) =
      fun i => if i = 0 then first.exchanges else second.exchanges := by
    funext i
    split <;> simp
  rw [(hresult _).1 hjoins]
  refine hplays _ ?_
  rw [htracks]
  exact .second_first first.exchanges second.exchanges

/-- A read and a change in two slices each, of which the second succeeds before the first fails, and
a scan in two segments, of which the second fails before the first. -/
theorem parts_settle_failed :
    let key : Key := .ofList [("id", .text "a")]
    let read : BatchRead := ⟨"t", List.replicate 101 key, { keys := [] }, none⟩
    let change : BatchChange := ⟨"t", List.replicate 26 (.ofKey key), none, none⟩
    let scan : Scan.Request := { table := "t" }
    let plan : SegmentPlan := ⟨2, none⟩
    Key.validateAll read.keys = .ok () ∧
    (read.run {} 1).run.Plays
      [⟨.batchGet, read.request (slice 100 read.keys 1), .reply ({} : BatchGet.Reply)⟩,
        ⟨.batchGet, read.request (slice 100 read.keys 0), .failed (garbled .batchGet)⟩]
      (some (.error (.fatal (garbled .batchGet)))) ∧
    change.entries ≠ [] ∧
    (change.run {} 1).run.Plays
      [⟨.batchWrite, change.request (slice 25 change.entries 1), .reply ({} : BatchWrite.Reply)⟩,
        ⟨.batchWrite, change.request (slice 25 change.entries 0), .failed (garbled .batchWrite)⟩]
      (some (.error (.fatal (garbled .batchWrite)))) ∧
    scan.plan? {} (some 2) = some plan ∧
    (scan.run {} 1 {} (some 2)).run.Plays
      [⟨.scan, plan.part scan 1, .failed (.codec .scan "later")⟩,
        ⟨.scan, plan.part scan 0, .failed (garbled .scan)⟩]
      (some (.error (.fatal (garbled .scan)))) := by
  intro key read change scan plan
  have hkeys (n : Nat) :
      (List.replicate n key).forM (fun key => key.validate Key.mostAttributes) = .ok () := by
    induction n with
    | zero => rfl
    | succ n ih =>
      rw [List.replicate_succ]
      exact ih
  have hvalid : Key.validateAll read.keys = .ok () := hkeys 101
  have hne : change.entries ≠ [] := by simp [change]
  have hplan : scan.plan? {} (some 2) = some plan := by decide
  have hread := parts_settle.1 read {} 1 hvalid
  have hchange := parts_settle.2.1 change {} 1 hne
  have hscan := parts_settle.2.2 scan {} 1 {} (some 2) plan hplan
  have hrefused {op : Operation} (batched : Batched op) (request : op.Request) :
      batched.Resubmits 1 batched.nothing request [.refused {} op request (garbled op) rfl]
        (some (.error (.fatal (garbled op)))) := .failed rfl rfl
  have hanswered {op : Operation} (batched : Batched op) (request : op.Request) (reply : op.Reply)
      (hnone : batched.remainder request reply = none) :
      batched.Resubmits 1 batched.nothing request [.answered {} op request reply]
        (some (.ok (batched.merge batched.nothing reply))) := .ended rfl rfl hnone
  have hsegment (i : Nat) (e : TransportError) (he : e.isRetryable = false) :
      Paged.scan.Follows { limit := plan.limit } 1 [] (plan.part scan i)
        [.refused {} .scan (plan.part scan i) e he] (some (.error (.fatal e))) :=
    (Paged.Follows.failed rfl).2 ⟨rfl, rfl, rfl⟩
  refine ⟨hvalid, ?_, hne, ?_, hplan, ?_⟩
  · exact hread.plays_second_first (by simp [read]) (hrefused _ _)
      (hanswered Batched.get _ _ rfl)
  · exact hchange.plays_second_first (by simp [change]) (hrefused _ _)
      (hanswered Batched.write _ _ rfl)
  · exact hscan.plays_second_first rfl (hsegment 0 _ rfl) (hsegment 1 _ rfl)

end TableClient
