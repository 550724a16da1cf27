import TableClient.Proofs.FanOut

/-! What becomes of the settings of a read of many items.

The request for a slice of the keys has the settings of the read. What a reply leaves comes back as
entries of a request, settings and all, and is asked for again as it came back; only the report of
capacity is taken from the request before (`get_remainder`). So the requests that repeat a slice
have the settings that the store repeats, and all requests those of the read where the store
repeats them (`batch_read_settings`). -/
namespace TableClient

/-- What is asked for again are the entries with keys that came back, with the same report. -/
theorem Batched.get_remainder {request rest : BatchGet.Request} {reply : BatchGet.Reply}
    (h : Batched.get.remainder request reply = some rest) :
    rest = { request with
      tables := reply.unprocessed.filter fun _ entry => !entry.keys.isEmpty } := by
  simp only [Batched.get] at h
  split at h
  · cases h
  · exact (Option.some.inj h).symm

namespace BatchRead
variable {b : BatchRead}

/-! ### Settings of requests -/

/-- Whether a request has the settings of a read, whatever its keys. -/
def Carries (b : BatchRead) (request : BatchGet.Request) : Prop :=
  ∀ table entry, (table, entry) ∈ request.tables.toList →
    entry = { b.template with keys := entry.keys }

/-- Whether the keys that a reply leaves come back with the settings of a read. -/
def Repeats (b : BatchRead) (reply : BatchGet.Reply) : Prop :=
  ∀ table entry, (table, entry) ∈ reply.unprocessed.toList → entry.keys ≠ [] →
    entry = { b.template with keys := entry.keys }

theorem carries_request (b : BatchRead) (keys : List Key) : b.Carries (b.request keys) := by
  intro table entry hmem
  rw [request, KeyMap.toList_single, List.mem_singleton] at hmem
  cases hmem
  rfl

/-- A request for what is left has the settings of the read if and only if the reply repeats
them. -/
theorem carries_remainder_iff {request rest : BatchGet.Request} {reply : BatchGet.Reply}
    (h : Batched.get.remainder request reply = some rest) : b.Carries rest ↔ b.Repeats reply := by
  rw [Batched.get_remainder h]
  simp only [Carries, Repeats, KeyMap.toList_filter, List.mem_filter]
  simp

/-! ### Asking again -/

section AsksAgain
variable {s : Settings} {rounds : Nat} {keys : List Key} {sends : List (Sent s .batchGet)}

/-- What is asked for of a slice of the keys, and with which settings. -/
structure AsksAgain (b : BatchRead) (keys : List Key) (sends : List (Sent s .batchGet)) :
    Prop where
  first : ∀ sent ∈ sends.head?, sent.request = b.request keys
  /-- The entries that came back are asked for as they are, without those that have no keys, so the
  settings are those of the read if the store repeats them, and only then. -/
  next : sends.IsChain fun before after => ∃ reply : BatchGet.Reply,
    before.outcome = .ok reply ∧
      BatchGet.Request.tables after.request =
        (reply.unprocessed.filter fun _ entry => !entry.keys.isEmpty) ∧
      (b.Carries after.request ↔ b.Repeats reply)
  reported : ∀ sent ∈ sends, BatchGet.Request.reportCapacity sent.request = b.reportCapacity

theorem asksAgain_of_resubmits {earlier : BatchGet.Reply}
    {result : Option (Outcome BatchGet.Reply)}
    (h : Batched.get.Resubmits rounds earlier (b.request keys) sends result) :
    b.AsksAgain keys sends := by
  refine ⟨h.first, ?_, ?_⟩
  · refine h.next.imp fun before after ⟨reply, houtcome, hrest⟩ => ?_
    refine ⟨reply, houtcome, ?_, carries_remainder_iff hrest⟩
    rw [Batched.get_remainder hrest]
  · refine h.next.induction _ _ (fun before after ⟨reply, _, hrest⟩ hbefore => ?_) fun hne => ?_
    · rw [Batched.get_remainder hrest]
      exact hbefore
    · rw [h.first _ (List.head_mem_head? hne)]
      rfl

/-- Where the store repeats the settings, every request has them. -/
theorem AsksAgain.carries (h : b.AsksAgain keys sends)
    (hrepeats : ∀ sent ∈ sends, ∀ reply, sent.outcome = .ok reply → b.Repeats reply) :
    ∀ sent ∈ sends, b.Carries sent.request := by
  refine (List.IsChain.iff_mem.1 h.next).induction _ _ ?_ fun hne => ?_
  · rintro before after ⟨hbefore, -, reply, houtcome, -, hcarries⟩ -
    exact hcarries.2 (hrepeats before hbefore reply houtcome)
  · rw [h.first _ (List.head_mem_head? hne)]
    exact b.carries_request keys

end AsksAgain

end BatchRead

/-- **A read repeats the settings that come back.** Whatever its keys and settings, and whatever the
store replies, a read asks for every slice of its keys with its settings, and then for the entries
that came back with keys, with the settings that came back. So a repeated request has the settings
of the read if and only if the reply before repeats them, and all requests have them if all replies
do. Every request asks for the report of capacity that the read does. -/
theorem batch_read_settings (b : BatchRead) (s : Settings) (rounds : Nat) {es : List Exchange}
    {result : Option (Outcome BatchGet.Reply)} (h : (b.run s rounds).run.Plays es result) :
    (Key.validateAll b.keys = .ok () → 0 < rounds →
      ∃ sends : Fin ((b.keys.length + 100 - 1) / 100) → List (Sent s .batchGet),
        Interleaves (fun i => (sends i).flatMap Sent.exchanges) es ∧
        ∀ i, sends i ≠ [] ∧ b.AsksAgain (slice 100 b.keys i) (sends i)) ∧
    ∀ x ∈ es, ∃ (request : BatchGet.Request) (arrival : Arrival .batchGet),
      x = ⟨.batchGet, request, arrival⟩ ∧ request.reportCapacity = b.reportCapacity ∧
        (Answered .batchGet (fun _ reply => b.Repeats reply) es → b.Carries request) := by
  cases hvalid : Key.validateAll b.keys with
  | error e =>
    rw [BatchRead.run, hvalid] at h
    obtain ⟨rfl, -⟩ := h
    refine ⟨fun hok => ?_, by simp⟩
    cases hok
  | ok =>
    rw [BatchRead.run, hvalid] at h
    obtain ⟨sends, ends, hresubmits, hturns, -⟩ :=
      (FansOut.of_chunks Batched.get (by decide) rounds b.keys b.request).settles h
    have hasks i := BatchRead.asksAgain_of_resubmits (hresubmits i)
    refine ⟨fun _ hrounds => ⟨sends, hturns, fun i => ⟨fun hnil => ?_, hasks i⟩⟩, fun x hx => ?_⟩
    · have hends := (hresubmits i).ending
      rw [hnil, Batched.ends_nil] at hends
      omega
    · obtain ⟨i, hx⟩ := hturns.exists_mem_track hx
      obtain ⟨sent, hsent, hx⟩ := List.mem_flatMap.1 hx
      obtain ⟨arrival, rfl⟩ := sent.eq_of_mem hx
      refine ⟨sent.request, arrival, rfl, (hasks i).reported sent hsent, fun hanswered => ?_⟩
      refine (hasks i).carries (fun other hother reply houtcome => ?_) sent hsent
      refine other.replied hanswered (fun y hy => ?_) houtcome
      exact hturns.mem_of_track (List.mem_flatMap.2 ⟨other, hother, hy⟩)

/-! ### A read in two rounds -/

/-- A single request of which a first reply leaves something, and the next nothing. -/
theorem plays_processAll_twice {s : Settings} {op : Operation} {batched : Batched op}
    {request rest : op.Request} {reply reply' : op.Reply}
    (hrest : batched.remainder request reply = some rest)
    (hnone : batched.remainder rest reply' = none) :
    (processAll s batched 2 [request]).run.Plays
      [⟨op, request, .reply reply⟩, ⟨op, rest, .reply reply'⟩]
      (some (.ok (batched.merge batched.nothing
        (batched.merge (batched.merge batched.nothing reply) reply')))) := by
  let sends : List (Sent s op) := [.answered s op request reply, .answered s op rest reply']
  let total := batched.merge (batched.merge batched.nothing reply) reply'
  have hresubmits : batched.Resubmits 2 batched.nothing request sends (some (.ok total)) :=
    ⟨by simp [sends, Sent.answered], .cons_cons ⟨reply, rfl, hrest⟩ (.singleton _), le_rfl,
      (Batched.ends_resent rfl hrest).2 ((Batched.ends_ended rfl hnone).2 rfl)⟩
  have hcount : [request].length = 1 := rfl
  refine (Batched.Portions.plays_processAll hcount).2
    ⟨fun _ => sends.flatMap Sent.exchanges, fun _ => some (.ok total), ?_, fun i => ?_, rfl⟩
  · exact .of_flatMap fun _ : Fin 1 => sends.flatMap Sent.exchanges
  · rw [Subsingleton.elim i 0]
    exact plays_processFrom.2 ⟨sends, rfl, hresubmits⟩

namespace BatchRead

/-- A read of two keys with settings. -/
def pairRead : BatchRead where
  table := "t"
  keys := [.ofList [("id", .text "a")], .ofList [("id", .text "b")]]
  template :=
    { keys := []
      projection := some "#n0"
      names := .ofList [("#n0", "x")]
      consistentRead := some true }
  reportCapacity := some .total

/-- The second key, without settings. -/
def bareEntry : TableKeys := { keys := [.ofList [("id", .text "b")]] }

/-- The second key, with the settings of the read. -/
def wholeEntry : TableKeys := { pairRead.template with keys := bareEntry.keys }

/-- A reply that leaves an entry. -/
def leaving (entry : TableKeys) : BatchGet.Reply := { unprocessed := .ofList [("t", entry)] }

/-- A request for an entry, with the report that the read asks for. -/
def asking (entry : TableKeys) : BatchGet.Request :=
  { tables := .ofList [("t", entry)], reportCapacity := some .total }

def twoRounds (entry : TableKeys) : List Exchange :=
  [⟨.batchGet, pairRead.request pairRead.keys, .reply (leaving entry)⟩,
    ⟨.batchGet, asking entry, .reply ({} : BatchGet.Reply)⟩]

theorem twoRounds_played {entry : TableKeys} (hne : entry.keys ≠ []) :
    (pairRead.run {} 2).run.Plays (twoRounds entry) (some (.ok {})) := by
  have hvalid : Key.validateAll pairRead.keys = .ok () := rfl
  have hrequests : pairRead.requests = [pairRead.request pairRead.keys] := by
    simp [requests, request, chunkSize, chunks, pairRead]
  have hrest : Batched.get.remainder (pairRead.request pairRead.keys) (leaving entry) =
      some (asking entry) := by
    simp [Batched.get, leaving, asking, KeyMap.filter_single, hne, request, pairRead]
  have hnone : Batched.get.remainder (asking entry) {} = none := rfl
  rw [run, hvalid]
  show (processAll {} Batched.get 2 pairRead.requests).run.Plays _ _
  rw [hrequests]
  exact plays_processAll_twice hrest hnone

end BatchRead

/-- A store leaves a key and none of the settings: the key is asked for again without them. -/
theorem batch_read_settings_dropped :
    Key.validateAll BatchRead.pairRead.keys = .ok () ∧
    (BatchRead.pairRead.run {} 2).run.Plays (BatchRead.twoRounds BatchRead.bareEntry)
      (some (.ok {})) ∧
    ⟨.batchGet, BatchRead.asking BatchRead.bareEntry, .reply ({} : BatchGet.Reply)⟩ ∈
      BatchRead.twoRounds BatchRead.bareEntry ∧
    (BatchRead.asking BatchRead.bareEntry).tables.get? "t" =
      some { keys := BatchRead.bareEntry.keys } ∧
    ¬BatchRead.pairRead.Carries (BatchRead.asking BatchRead.bareEntry) := by
  refine ⟨rfl, BatchRead.twoRounds_played (by decide), by simp [BatchRead.twoRounds], ?_, ?_⟩
  · simp [BatchRead.asking, BatchRead.bareEntry]
  · intro h
    have hmem : ("t", BatchRead.bareEntry) ∈
        (BatchRead.asking BatchRead.bareEntry).tables.toList := by
      rw [BatchRead.asking, KeyMap.toList_single]
      exact List.mem_singleton_self _
    have hentry := h "t" BatchRead.bareEntry hmem
    cases congrArg TableKeys.consistentRead hentry

/-- A store that leaves a key with the settings. -/
theorem batch_read_settings_repeated :
    Key.validateAll BatchRead.pairRead.keys = .ok () ∧
    (BatchRead.pairRead.run {} 2).run.Plays (BatchRead.twoRounds BatchRead.wholeEntry)
      (some (.ok {})) ∧
    Answered .batchGet (fun _ reply => BatchRead.pairRead.Repeats reply)
      (BatchRead.twoRounds BatchRead.wholeEntry) ∧
    (∃ sends : Fin ((BatchRead.pairRead.keys.length + 100 - 1) / 100) → List (Sent {} .batchGet),
      Interleaves (fun i => (sends i).flatMap Sent.exchanges)
        (BatchRead.twoRounds BatchRead.wholeEntry) ∧
      ∀ i, sends i ≠ [] ∧
        BatchRead.pairRead.AsksAgain (slice 100 BatchRead.pairRead.keys i) (sends i)) ∧
    ∀ x ∈ BatchRead.twoRounds BatchRead.wholeEntry,
      ∃ (request : BatchGet.Request) (arrival : Arrival .batchGet),
        x = ⟨.batchGet, request, arrival⟩ ∧ request.reportCapacity = some .total ∧
          BatchRead.pairRead.Carries request := by
  have hvalid : Key.validateAll BatchRead.pairRead.keys = .ok () := rfl
  have hplays : (BatchRead.pairRead.run {} 2).run.Plays
      (BatchRead.twoRounds BatchRead.wholeEntry) (some (.ok {})) :=
    BatchRead.twoRounds_played (by decide)
  have hrepeats : Answered .batchGet (fun _ reply => BatchRead.pairRead.Repeats reply)
      (BatchRead.twoRounds BatchRead.wholeEntry) := by
    refine .cons (fun table entry hmem _ => ?_) (.cons (fun table entry hmem => ?_) .nil)
    · rw [BatchRead.leaving, KeyMap.toList_single, List.mem_singleton] at hmem
      cases hmem
      rfl
    · cases hmem
  obtain ⟨hasks, hall⟩ := batch_read_settings BatchRead.pairRead {} 2 hplays
  refine ⟨hvalid, hplays, hrepeats, hasks hvalid (by decide), fun x hx => ?_⟩
  obtain ⟨request, arrival, rfl, hreport, hcarries⟩ := hall x hx
  exact ⟨request, arrival, rfl, hreport, hcarries hrepeats⟩

end TableClient
