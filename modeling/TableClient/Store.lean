import TableClient.Dialogue

/-! Stores, what stands at the other end of a dialogue.

A store answers each request, at once, after a time or never, and changes by it. `run`
plays a dialogue against a store on a clock of whole milliseconds. Pauses and the times
that a store takes are sleeps. Dialogues that go on at once all start at the same time,
and are over when the last of them is. -/
namespace TableClient

/-- What a store does with a request. -/
inductive Response (op : Operation) where
  | never
  /-- The result comes after a time. -/
  | after (delay : Duration) (result : Except TransportError op.Reply)

namespace Response
variable {op : Operation}

/-- A response at once. -/
def now (result : Except TransportError op.Reply) : Response op :=
  .after (.ofNanos 0) result

/-- What arrives before a deadline, and after how many milliseconds. A result that comes at the
very end is in time. -/
def within (deadline : Duration) : Response op → Arrival op × Nat
  | .never => (.late, deadline.ticks)
  | .after delay result =>
    if delay.sleepTicks ≤ deadline.ticks then
      match result with
      | .ok reply => (.reply reply, delay.sleepTicks)
      | .error e => (.failed e, delay.sleepTicks)
    else (.late, deadline.ticks)

end Response

/-- A store with a state: its response to a request that comes at a time. -/
abbrev Store (σ : Type) := (op : Operation) → op.Request → (time : Nat) → σ → Response op × σ

/-- How a run stands: what it ended with, the time, and the state of the store. -/
structure Stand (σ α : Type) where
  /-- Nothing if the dialogue was cut. -/
  result : Option α
  time : Nat
  state : σ

/-- Goes on where a run ended; a run that was cut stays where it is. -/
def Stand.andThen {σ α β : Type} (stand : Stand σ α) (next : α → Nat → σ → Stand σ β) :
    Stand σ β :=
  match stand.result with
  | none => ⟨none, stand.time, stand.state⟩
  | some a => next a stand.time stand.state

namespace Dialogue
variable {σ : Type}

/-- Plays a dialogue against a store, from a time on. -/
def run (store : Store σ) {α : Type} : Dialogue α → (time : Nat) → σ → Stand σ α
  | .done a, time, state => ⟨some a, time, state⟩
  | .cut, time, state => ⟨none, time, state⟩
  | .pause length next, time, state => next.run store (time + length.sleepTicks) state
  | .ask op request deadline next, time, state =>
    let (response, state) := store op request time state
    let (arrival, wait) := response.within deadline
    (next arrival).run store (time + wait) state
  | .abreast (β := β) count branches next, time, state =>
    let together : Stand σ (List β) :=
      (List.finRange count).foldl
        (fun stand i =>
          let branch := (branches i).run store time stand.state
          { result := do return (← stand.result) ++ [← branch.result]
            time := max stand.time branch.time
            state := branch.state })
        ⟨some [], time, state⟩
    together.andThen fun ends time state => (next ends).run store time state

/-- What comes after a dialogue is played from where the dialogue ended. -/
theorem run_bind (store : Store σ) {α β : Type} (d : Dialogue α) (f : α → Dialogue β) (time : Nat)
    (state : σ) :
    (d.bind f).run store time state =
      (d.run store time state).andThen fun a => (f a).run store := by
  induction d generalizing time state with
  | done a => rfl
  | cut => rfl
  | pause length next ih => simp only [bind, run, ih]
  | ask op request deadline next ih => simp only [bind, run, ih]
  | abreast count branches next _ ih =>
    simp only [bind, run, ih]
    unfold Stand.andThen
    split <;> rfl

end Dialogue

end TableClient
