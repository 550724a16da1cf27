import TableClient.Proofs.Play
import TableClient.Retry

/-! What can come of sending a request.

All attempts send the same request, and only the last may bring a reply (`plays_attempts`).
`Sent` is a request with the attempts that were made and what they came to; a call that starts
by sending a request goes on from one (`plays_send_bind`). -/
namespace TableClient

/-- What arrived is not a reply. -/
def Arrival.IsMiss {op : Operation} (arrival : Arrival op) : Prop := ∀ reply, arrival ≠ .reply reply

/-- Only a reply is a success. -/
theorem Arrival.outcome_eq_ok_iff {op : Operation} {arrival : Arrival op} {deadline : Duration}
    {reply : op.Reply} : arrival.outcome deadline = .ok reply ↔ arrival = .reply reply := by
  cases arrival <;> simp [outcome]

/-- Attempts end, and with what the last of them brought. Those before it brought no reply. -/
theorem plays_attempts {s : Settings} {op : Operation} {request : op.Request} {more attempt : Nat}
    {es : List Exchange} {result : Option (Outcome op.Reply)}
    (h : (attempts s op request more attempt).Plays es result) :
    ∃ (earlier : List (Arrival op)) (last : Arrival op) (deadline : Duration),
      es = (earlier ++ [last]).map (Exchange.mk op request) ∧
      (∀ arrival ∈ earlier, arrival.IsMiss) ∧ result = some (last.outcome deadline) := by
  -- an attempt after which there is no other
  have hlast {attempt : Nat} {arrival : Arrival op} {rest : List Exchange}
      (h : (Dialogue.done (arrival.outcome (s.deadline op attempt))).Plays rest result) :
      ∃ (earlier : List (Arrival op)) (last : Arrival op) (deadline : Duration),
        ⟨op, request, arrival⟩ :: rest = (earlier ++ [last]).map (Exchange.mk op request) ∧
        (∀ arrival ∈ earlier, arrival.IsMiss) ∧ result = some (last.outcome deadline) := by
    obtain ⟨rfl, rfl⟩ := h
    exact ⟨[], arrival, s.deadline op attempt, rfl, by simp, rfl⟩
  induction more generalizing attempt es with
  | zero =>
    rw [attempts] at h
    obtain ⟨arrival, rest, rfl, h⟩ := h
    have hdone : (Dialogue.done (arrival.outcome (s.deadline op attempt))).Plays rest result := by
      cases houtcome : arrival.outcome (s.deadline op attempt) <;> simpa [houtcome] using h
    exact hlast hdone
  | succ more ih =>
    rw [attempts] at h
    obtain ⟨arrival, rest, rfl, h⟩ := h
    cases houtcome : arrival.outcome (s.deadline op attempt) with
    | ok reply =>
      simp only [houtcome] at h
      exact hlast (houtcome ▸ h)
    | error failure =>
      simp only [houtcome] at h
      split at h
      · -- another attempt
        obtain ⟨earlier, last, deadline, rfl, hearlier, hresult⟩ := ih h
        refine ⟨arrival :: earlier, last, deadline, by simp, ?_, hresult⟩
        refine List.forall_mem_cons.2 ⟨fun reply hreply => ?_, hearlier⟩
        rw [Arrival.outcome_eq_ok_iff.2 hreply] at houtcome
        cases houtcome
      · exact hlast (houtcome ▸ h)

/-- A request that was sent: the attempts that were made, and what they came to. -/
structure Sent (s : Settings) (op : Operation) where
  request : op.Request
  exchanges : List Exchange
  outcome : Outcome op.Reply
  plays : (send s op request).run.Plays exchanges (some outcome)

namespace Sent
variable {s : Settings} {op : Operation}

/-- The attempts at a request, the last of which decides. -/
theorem exists_arrivals (sent : Sent s op) :
    ∃ (earlier : List (Arrival op)) (last : Arrival op) (deadline : Duration),
      sent.exchanges = (earlier ++ [last]).map (Exchange.mk op sent.request) ∧
      (∀ arrival ∈ earlier, arrival.IsMiss) ∧ sent.outcome = last.outcome deadline := by
  obtain ⟨earlier, last, deadline, hes, hearlier, houtcome⟩ := plays_attempts sent.plays
  exact ⟨earlier, last, deadline, hes, hearlier, Option.some.inj houtcome⟩

/-- Nothing but the request is sent. -/
theorem eq_of_mem (sent : Sent s op) {e : Exchange} (h : e ∈ sent.exchanges) :
    ∃ arrival, e = ⟨op, sent.request, arrival⟩ := by
  obtain ⟨earlier, last, deadline, hes, -, -⟩ := sent.exists_arrivals
  rw [hes] at h
  obtain ⟨arrival, -, rfl⟩ := List.mem_map.1 h
  exact ⟨arrival, rfl⟩

/-- The reply with which the attempts ended is one that arrived. -/
theorem mem_of_outcome (sent : Sent s op) {reply : op.Reply} (h : sent.outcome = .ok reply) :
    ⟨op, sent.request, .reply reply⟩ ∈ sent.exchanges := by
  obtain ⟨earlier, last, deadline, hes, -, houtcome⟩ := sent.exists_arrivals
  rw [houtcome, Arrival.outcome_eq_ok_iff] at h
  rw [hes, h]
  simp

/-- There is an attempt at every request. -/
theorem length_pos (sent : Sent s op) : 1 ≤ sent.exchanges.length := by
  obtain ⟨earlier, last, deadline, hes, -, -⟩ := sent.exists_arrivals
  rw [hes]
  simp

/-- Where attempts end with a failure, it is not a reply that arrived last. -/
theorem exists_miss (sent : Sent s op) {e : Failure} (h : sent.outcome = .error e) :
    ∃ x ∈ sent.exchanges, x.arrival.IsMiss := by
  obtain ⟨earlier, last, deadline, hes, -, houtcome⟩ := sent.exists_arrivals
  refine ⟨⟨op, sent.request, last⟩, by simp [hes], fun reply hreply => ?_⟩
  rw [h, Arrival.outcome_eq_ok_iff.2 hreply] at houtcome
  cases houtcome

/-- Where every reply is as a relation says, so is the one with which the attempts ended. -/
theorem replied (sent : Sent s op) {R : op.Request → op.Reply → Prop} {es : List Exchange}
    (h : Answered op R es) (hsent : sent.exchanges ⊆ es) {reply : op.Reply}
    (houtcome : sent.outcome = .ok reply) : R sent.request reply :=
  h sent.request reply (hsent (sent.mem_of_outcome houtcome))

/-- A request whose first attempt is answered. -/
def answered (s : Settings) (op : Operation) (request : op.Request) (reply : op.Reply) :
    Sent s op where
  request := request
  exchanges := [⟨op, request, .reply reply⟩]
  outcome := .ok reply
  plays := by
    show (attempts s op request _ 1).Plays _ _
    rw [attempts]
    exact ⟨.reply reply, [], rfl, rfl, rfl⟩

end Sent

/-- **A call that starts by sending a request: the request comes to a failure, which is the
call's, or to a reply, from which the call goes on.** -/
theorem plays_send_bind {s : Settings} {op : Operation} {α : Type} {request : op.Request}
    {f : op.Reply → Call α} {es : List Exchange} {result : Option (Outcome α)} :
    (send s op request >>= f).run.Plays es result ↔
      ∃ sent : Sent s op, sent.request = request ∧
        ((∃ e, sent.outcome = .error e ∧ es = sent.exchanges ∧ result = some (.error e)) ∨
          ∃ reply rest, sent.outcome = .ok reply ∧ es = sent.exchanges ++ rest ∧
            (f reply).run.Plays rest result) := by
  rw [Call.plays_bind]
  constructor
  · rintro (⟨h, -⟩ | ⟨e, h, rfl⟩ | ⟨reply, before, rest, rfl, h, hf⟩)
    · obtain ⟨_, last, deadline, -, -, hresult⟩ := plays_attempts h
      cases hresult
    · exact ⟨⟨request, es, .error e, h⟩, rfl, .inl ⟨e, rfl, rfl, rfl⟩⟩
    · exact ⟨⟨request, before, .ok reply, h⟩, rfl, .inr ⟨reply, rest, rfl, rfl, hf⟩⟩
  · rintro ⟨⟨_, exchanges, outcome, h⟩, rfl, ⟨e, rfl, rfl, rfl⟩ | ⟨reply, rest, rfl, rfl, hf⟩⟩
    · exact .inr (.inl ⟨e, h, rfl⟩)
    · exact .inr (.inr ⟨reply, exchanges, rest, rfl, h, hf⟩)

end TableClient
