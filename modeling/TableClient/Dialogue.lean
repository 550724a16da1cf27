import TableClient.Settings

/-! Dialogues of a client with a store.

What a client does is a tree: it asks, waits, or goes on with several dialogues at once,
and how it goes on depends on the answers. A request is given a deadline, and the client
goes on without an answer when the deadline passes. What answers, and how long that takes,
is not part of a dialogue. -/
namespace TableClient

/-- What has come of a request: an answer, an error of the transport, or nothing by the
deadline. -/
inductive Arrival (op : Operation) where
  | reply (r : op.Reply)
  | failed (e : TransportError)
  | late

/-- A dialogue that ends with an `α`. -/
inductive Dialogue : Type → Type 1 where
  | done {α : Type} (a : α) : Dialogue α
  /-- Given up, because a bound on its length was reached. -/
  | cut {α : Type} : Dialogue α
  /-- Waits for a time. -/
  | pause {α : Type} (length : Duration) (next : Dialogue α) : Dialogue α
  /-- Sends a request and waits for what comes of it. -/
  | ask {α : Type} (op : Operation) (request : op.Request) (deadline : Duration)
      (next : Arrival op → Dialogue α) : Dialogue α
  /-- Starts several dialogues at once and goes on when all have ended. -/
  | abreast {α β : Type} (count : Nat) (branches : Fin count → Dialogue β)
      (next : List β → Dialogue α) : Dialogue α

namespace Dialogue

instance {α : Type} : Inhabited (Dialogue α) := ⟨.cut⟩

/-- Goes on where a dialogue ends. -/
def bind {α β : Type} : Dialogue α → (α → Dialogue β) → Dialogue β
  | .done a, f => f a
  | .cut, _ => .cut
  | .pause length next, f => .pause length (next.bind f)
  | .ask op request deadline next, f =>
    .ask op request deadline fun arrival => (next arrival).bind f
  | .abreast count branches next, f => .abreast count branches fun ends => (next ends).bind f

instance : Monad Dialogue where
  pure := .done
  bind := .bind

/-- Waits for a time. -/
def wait (length : Duration) : Dialogue Unit := .pause length (.done ())

/-- Starts the dialogues of a list at once, and ends with what they end with, in order. -/
def all {α : Type} (dialogues : List (Dialogue α)) : Dialogue (List α) :=
  .abreast dialogues.length dialogues.get .done

theorem bind_done {α : Type} (d : Dialogue α) : d.bind .done = d := by
  induction d with
  | done a => rfl
  | cut => rfl
  | pause length next ih => simp only [bind, ih]
  | ask op request deadline next ih => simp only [bind, ih]
  | abreast count branches next _ ih => simp only [bind, ih]

theorem bind_assoc {α β γ : Type} (d : Dialogue α) (f : α → Dialogue β) (g : β → Dialogue γ) :
    (d.bind f).bind g = d.bind fun a => (f a).bind g := by
  induction d with
  | done a => rfl
  | cut => rfl
  | pause length next ih => simp only [bind, ih]
  | ask op request deadline next ih => simp only [bind, ih]
  | abreast count branches next _ ih => simp only [bind, ih]

instance : LawfulMonad Dialogue :=
  LawfulMonad.mk' Dialogue (fun d => bind_done d) (fun _ _ => rfl) (fun d f g => bind_assoc d f g)

end Dialogue

/-- A dialogue that may fail. -/
abbrev Call := ExceptT Failure Dialogue

namespace Call

/-- Starts calls at once. When all have ended, the first failure in the order of the calls
is the failure of all. -/
def all {α : Type} (calls : List (Call α)) : Call (List α) := do
  let ends ← ExceptT.lift (Dialogue.all (calls.map ExceptT.run))
  ExceptT.mk (.done (ends.mapM id))

/-- Goes on with a result that needs no dialogue. -/
def ofOutcome {α : Type} (outcome : Outcome α) : Call α := ExceptT.mk (.done outcome)

end Call

end TableClient
