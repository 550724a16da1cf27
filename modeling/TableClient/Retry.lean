import TableClient.Dialogue

/-! Attempts at a request.

Every attempt sends the same request with a longer deadline than the one before. An attempt
whose failure is worth another one is followed by a delay and the next, as long as
attempts are left. -/
namespace TableClient

/-- What an attempt came to. -/
def Arrival.outcome {op : Operation} (deadline : Duration) : Arrival op → Outcome op.Reply
  | .reply r => .ok r
  | .failed e => .error (.ofTransport e)
  | .late => .error (.timeout deadline)

/-- Makes an attempt and, while it is worth it, so many more. -/
def attempts (s : Settings) (op : Operation) (request : op.Request) (more attempt : Nat) :
    Dialogue (Outcome op.Reply) :=
  let deadline := s.deadline op attempt
  .ask op request deadline fun arrival =>
    match arrival.outcome deadline with
    | .ok reply => .done (.ok reply)
    | .error failure =>
      match more with
      | 0 => .done (.error failure)
      | more + 1 =>
        if failure.isRetryable then
          .pause (s.backoff.delayAfter attempt) (attempts s op request more (attempt + 1))
        else .done (.error failure)

/-- Sends a request. There is one attempt even where the settings allow none. -/
def send (s : Settings) (op : Operation) (request : op.Request) : Call op.Reply :=
  ExceptT.mk (attempts s op request (s.backoff.maxAttempts - 1) 1)

end TableClient
