import TableClient.Proofs.Play
import TableClient.Retry
import Mathlib.Order.Bounds.Basic

/-! The law of attempts.

`Dialogue.events` lists what a client does in a run: the requests that it sends, each with its
deadline and with what came of it, and the times for which it waits. Sending a request is a
sequence of attempts, counted from one. What an attempt comes to (`Sending.outcome`) depends only
on what the store does and on the attempt's deadline. `run_send` says that sending stops with the
first attempt that brings a reply or a failure not worth another attempt, or else with the last
that the settings allow; that it comes to what this attempt came to; and that all it does is to
send the request in each attempt and to wait between two of them as long as the settings say. -/
namespace TableClient

/-! ### What a run does -/

/-- Something that a client does in a run, with the time at which it begins. -/
inductive Event where
  /-- Sends a request with a deadline, of which comes what has arrived by then. -/
  | sent (time : Nat) (op : Operation) (request : op.Request) (deadline : Duration)
      (arrival : Arrival op)
  /-- Waits. -/
  | waited (time : Nat) (length : Duration)

/-- What is done in a run of a dialogue, in order. Of dialogues that go on at once, what each does
is listed after what the one before it does. -/
def Dialogue.events {σ : Type} (store : Store σ) {α : Type} :
    Dialogue α → (time : Nat) → σ → List Event
  | .done _, _, _ => []
  | .cut, _, _ => []
  | .pause length next, time, state =>
    .waited time length :: next.events store (time + length.sleepTicks) state
  | .ask op request deadline next, time, state =>
    let (response, state) := store op request time state
    let (arrival, wait) := response.within deadline
    .sent time op request deadline arrival :: (next arrival).events store (time + wait) state
  | .abreast count branches next, time, state =>
    let (listed, _) :=
      (List.finRange count).foldl
        (fun (listed, state) i =>
          (listed ++ (branches i).events store time state,
            ((branches i).run store time state).state))
        ([], state)
    let together := runBranches store branches time (List.finRange count) ⟨some [], time, state⟩
    match together.result with
    | none => listed
    | some ends => listed ++ (next ends).events store together.time together.state

/-- How a run stands in the end, and what is done in it. -/
def Dialogue.played {σ α : Type} (store : Store σ) (d : Dialogue α) (time : Nat) (state : σ) :
    Stand σ α × List Event :=
  (d.run store time state, d.events store time state)

/-! ### What attempts come to -/

namespace Response
variable {op : Operation}

/-- What an attempt with a deadline comes to: what arrives by the deadline, else a timeout. An
error of the transport is transient if it is worth another attempt, else fatal. -/
def outcome (deadline : Duration) : Response op → Outcome op.Reply
  | .never => .error (.timeout deadline)
  | .after delay result =>
    if delay.sleepTicks ≤ deadline.ticks then
      match result with
      | .ok reply => .ok reply
      | .error e => .error (if e.isRetryable then .transient e else .fatal e)
    else .error (.timeout deadline)

/-- How long an attempt with a deadline takes. -/
def lasts (deadline : Duration) : Response op → Nat
  | .never => deadline.ticks
  | .after delay _ => min delay.sleepTicks deadline.ticks

theorem outcome_within (deadline : Duration) (response : Response op) :
    (response.within deadline).1.outcome deadline = response.outcome deadline := by
  cases response with
  | never => rfl
  | after delay result =>
    unfold within outcome
    dsimp only
    split
    · cases result <;> rfl
    · rfl

theorem lasts_within (deadline : Duration) (response : Response op) :
    (response.within deadline).2 = response.lasts deadline := by
  cases response with
  | never => rfl
  | after delay result =>
    unfold within lasts
    dsimp only
    split
    · next intime => cases result <;> exact (min_eq_left intime).symm
    · next late => exact (min_eq_right (Nat.le_of_not_le late)).symm

end Response

/-- A request that is sent to a store, from a time on. -/
structure Sending (σ : Type) where
  settings : Settings
  op : Operation
  request : op.Request
  store : Store σ
  time : Nat
  state : σ

namespace Sending
variable {σ : Type} (c : Sending σ)

/-- The deadline of an attempt. -/
def deadline (n : Nat) : Duration := c.settings.deadline c.op n

/-- The delay after an attempt. -/
def delay (n : Nat) : Duration := c.settings.backoff.delayAfter n

/-- The time, and the state of the store, after some attempts, each with the delay after it. -/
def after : Nat → Nat × σ
  | 0 => (c.time, c.state)
  | n + 1 =>
    let (time, state) := after n
    let heard := c.store c.op c.request time state
    (time + heard.1.lasts (c.deadline (n + 1)) + (c.delay (n + 1)).sleepTicks, heard.2)

/-- When an attempt begins. -/
def start (n : Nat) : Nat := (c.after (n - 1)).1

/-- The state of the store when an attempt begins. -/
def met (n : Nat) : σ := (c.after (n - 1)).2

/-- What the store does in an attempt. -/
def response (n : Nat) : Response c.op := (c.store c.op c.request (c.start n) (c.met n)).1

/-- What an attempt comes to. -/
def outcome (n : Nat) : Outcome c.op.Reply := (c.response n).outcome (c.deadline n)

/-- When an attempt is over. -/
def finish (n : Nat) : Nat := c.start n + (c.response n).lasts (c.deadline n)

/-- The state of the store when an attempt is over. -/
def left (n : Nat) : σ := (c.store c.op c.request (c.start n) (c.met n)).2

/-- The request going out in an attempt. -/
def attempted (n : Nat) : Event :=
  .sent (c.start n) c.op c.request (c.deadline n) ((c.response n).within (c.deadline n)).1

/-- The wait after an attempt. -/
def delayed (n : Nat) : Event := .waited (c.finish n) (c.delay n)

/-- What is done from one attempt on, if so many others follow it. -/
def timeline (first more : Nat) : List Event :=
  (List.range' first more).flatMap (fun n => [c.attempted n, c.delayed n]) ++
    [c.attempted (first + more)]

/-- How a run stands that ends with an attempt. -/
def stand (n : Nat) : Stand σ (Outcome c.op.Reply) := ⟨some (c.outcome n), c.finish n, c.left n⟩

/-- Whether an attempt came to a failure that is worth another attempt. -/
def IsWorthMore (n : Nat) : Prop := ∃ e, c.outcome n = .error e ∧ e.isRetryable = true

/-- Whether no attempt follows: the attempt brought a reply, or a failure that is not worth
another, or is the last that the settings allow. -/
def Stops (n : Nat) : Prop :=
  (∃ reply, c.outcome n = .ok reply) ∨ (∃ e, c.outcome n = .error e ∧ e.isRetryable = false) ∨
    n = max 1 c.settings.backoff.maxAttempts

theorem stops_iff (n : Nat) :
    c.Stops n ↔ ¬c.IsWorthMore n ∨ n = max 1 c.settings.backoff.maxAttempts := by
  unfold Stops IsWorthMore
  cases c.outcome n <;> simp

theorem timeline_zero (n : Nat) : c.timeline n 0 = [c.attempted n] := by
  simp [timeline]

theorem timeline_succ (first more : Nat) :
    c.timeline first (more + 1) =
      c.attempted first :: c.delayed first :: c.timeline (first + 1) more := by
  simp [timeline, List.range'_succ, Nat.add_right_comm, Nat.add_assoc]

/-! ### The law -/

/-- In an attempt the request goes out, and what has arrived by the deadline decides how to go
on. -/
theorem played_ask (n : Nat) {α : Type} (next : Arrival c.op → Dialogue α) :
    (Dialogue.ask c.op c.request (c.deadline n) next).played c.store (c.start n) (c.met n) =
      ((next ((c.response n).within (c.deadline n)).1).played c.store (c.finish n) (c.left n)).map
        id (c.attempted n :: ·) := by
  rw [finish, ← Response.lasts_within]
  rfl

/-- After an attempt that is the last allowed, or did not come to a failure worth another, there is
no other. -/
theorem played_last {n more : Nat} (h : more = 0 ∨ ¬c.IsWorthMore n) :
    (attempts c.settings c.op c.request more n).played c.store (c.start n) (c.met n) =
      (c.stand n, [c.attempted n]) := by
  rw [attempts, show c.settings.deadline c.op n = c.deadline n from rfl, played_ask,
    Response.outcome_within, stand, outcome]
  cases houtcome : (c.response n).outcome (c.deadline n) with
  | ok reply => rfl
  | error failure =>
    cases more with
    | zero => rfl
    | succ more =>
      have hfinal : ¬failure.isRetryable = true := fun hretry =>
        h.resolve_left (Nat.succ_ne_zero more) ⟨failure, houtcome, hretry⟩
      simp only [if_neg hfinal]
      rfl

/-- After an attempt that came to a failure worth another, and the delay after it, comes the
next. -/
theorem played_again {n more : Nat} (hworth : c.IsWorthMore (n + 1)) :
    (attempts c.settings c.op c.request (more + 1) (n + 1)).played c.store (c.start (n + 1))
        (c.met (n + 1)) =
      ((attempts c.settings c.op c.request more (n + 2)).played c.store (c.start (n + 2))
        (c.met (n + 2))).map id (c.attempted (n + 1) :: c.delayed (n + 1) :: ·) := by
  obtain ⟨failure, houtcome, hretry⟩ := hworth
  rw [outcome] at houtcome
  rw [attempts, show c.settings.deadline c.op (n + 1) = c.deadline (n + 1) from rfl, played_ask,
    Response.outcome_within, houtcome]
  simp only [if_pos hretry]
  rfl

/-- From an attempt on, attempts go on to the first that did not come to a failure worth another,
or to the last allowed. -/
theorem played_attempts (more n : Nat) :
    ∃ extra ≤ more, (∀ i, n < i → i ≤ n + extra → c.IsWorthMore i) ∧
      (extra = more ∨ ¬c.IsWorthMore (n + 1 + extra)) ∧
      (attempts c.settings c.op c.request more (n + 1)).played c.store (c.start (n + 1))
        (c.met (n + 1)) = (c.stand (n + 1 + extra), c.timeline (n + 1) extra) := by
  induction more generalizing n with
  | zero =>
    refine ⟨0, le_rfl, by omega, .inl rfl, ?_⟩
    rw [c.played_last (.inl rfl), timeline_zero]
  | succ more ih =>
    by_cases hworth : c.IsWorthMore (n + 1)
    · obtain ⟨extra, hextra, hbefore, hlast, hplayed⟩ := ih (n + 1)
      have hnumber : n + 1 + 1 + extra = n + 1 + (extra + 1) := by omega
      refine ⟨extra + 1, by omega, fun i hlow hhigh => ?_, ?_, ?_⟩
      · obtain rfl | hlow : i = n + 1 ∨ n + 1 < i := by omega
        · exact hworth
        · exact hbefore i hlow (by omega)
      · rw [← hnumber]
        exact hlast.imp (congrArg Nat.succ) id
      · rw [c.played_again hworth, hplayed, hnumber, timeline_succ]
        rfl
    · refine ⟨0, Nat.zero_le _, by omega, .inr hworth, ?_⟩
      rw [c.played_last (.inr hworth), timeline_zero]

end Sending

/-- **The law of attempts.** Sending stops with the first attempt that brings a reply, or a failure
not worth another attempt, or is the last that the settings allow, and comes to what that attempt
came to. All attempts before it came to failures worth another. All that is done is to send the
request in each attempt, with the deadline of the attempt, and to wait after each attempt but the
last for the delay after it. -/
theorem run_send {σ : Type} (c : Sending σ) :
    ∃ n, IsLeast {n | 0 < n ∧ c.Stops n} n ∧ n ≤ max 1 c.settings.backoff.maxAttempts ∧
      (∀ i, 0 < i → i < n → c.IsWorthMore i) ∧
      (send c.settings c.op c.request).run.run c.store c.time c.state = c.stand n ∧
      (send c.settings c.op c.request).run.events c.store c.time c.state =
        c.timeline 1 (n - 1) := by
  obtain ⟨extra, hextra, hbefore, hlast, hplayed⟩ :=
    c.played_attempts (c.settings.backoff.maxAttempts - 1) 0
  obtain ⟨hrun, hevents⟩ := Prod.mk.inj hplayed
  rw [Nat.zero_add] at hlast hrun hevents
  refine ⟨1 + extra, ⟨⟨by omega, ?_⟩, ?_⟩, by omega, fun i hpos hi => hbefore i hpos (by omega),
    hrun, ?_⟩
  · rw [c.stops_iff]
    rcases hlast with rfl | hlast
    · exact .inr (by omega)
    · exact .inl hlast
  · rintro i ⟨hpos, hstops⟩
    by_contra hi
    rcases (c.stops_iff i).1 hstops with hworth | hmost
    · exact hworth (hbefore i hpos (by omega))
    · omega
  · rw [Nat.add_sub_cancel_left]
    exact hevents

/-- Nothing comes of a first attempt in its second. After a tenth of a second comes another, which
has twice as long and finds the connection refused at once, and after two tenths a third. -/
example :
    let store : Store Nat := fun _ _ _ heard =>
      (match heard with
        | 0 => .never
        | 1 => .now (.error (.connection "refused"))
        | _ => .now (.error (.codec .getItem "no item")), heard + 1)
    let stand := (send {} .getItem { table := "t", key := ∅ }).run.run store 0 0
    (stand.time, stand.state) = (1300, 3) := by
  decide +kernel

end TableClient
