import TableClient.Duration
import TableClient.Expression.Fault
import TableClient.Operation
import TableClient.Service.Error

/-! How a call can fail.

A call is rejected before anything is sent, or an attempt fails: its deadline passes, or
the transport reports an error. Timeouts and transient errors are worth another
attempt. -/
namespace TableClient

/-- What a transport reports. -/
inductive TransportError where
  /-- The service answered with an error. -/
  | service (error : ServiceError)
  /-- There was no answer. -/
  | connection (reason : String)
  /-- A request or its answer could not be written or read. -/
  | codec (operation : Operation) (message : String)
deriving DecidableEq

namespace TransportError

/-- The text of an error. -/
def text : TransportError → String
  | .service e => e.text
  | .connection reason => "connection failed: " ++ reason
  | .codec op message => "failed to encode or decode " ++ op.name ++ ": " ++ message

/-- The text of what caused an error. -/
def cause? : TransportError → Option String
  | .service e => e.cause
  | .connection reason => some reason
  | .codec .. => none

/-- Whether a status is one of a fault of the server. -/
def isServerStatus (status : Nat) : Bool := 500 ≤ status && status < 600

/-- Whether a service error says that the service, not the request, is at fault. -/
def isServiceFault (e : ServiceError) : Bool :=
  match e.code with
  | .internalServerError | .serviceUnavailable | .provisionedThroughputExceeded | .throttling
  | .requestLimitExceeded => true
  | .unknown => isServerStatus e.status
  | _ => false

/-- Whether another attempt may succeed. -/
def isRetryable : TransportError → Bool
  | .service e => e.retryable || isServiceFault e
  | .connection _ => true
  | .codec .. => false

end TransportError

/-- Why a call is rejected before anything is sent. -/
inductive Rejection where
  | emptyKey
  | keyTooLarge (most : Nat)
  | emptyItem
  | zeroLimit
  | tableLimitTooLarge
  | noKeys
  | noItems
  | noWrites
  | noTransactions
  | tooManyTransactions (most : Nat)
  | checkWithoutCondition
  | updateWithoutAction
  | ratioNotPositive
  | noAttempts
deriving DecidableEq

/-- The wording of a rejection. -/
def Rejection.message : Rejection → String
  | .emptyKey => "At least 1 property must be present in the key"
  | .keyTooLarge most => "At most " ++ toString most ++ " properties must be present in the key"
  | .emptyItem => "The item must not be empty"
  | .zeroLimit => "The limit must be positive"
  | .tableLimitTooLarge => "The limit must be less than or equal to 100"
  | .noKeys => "At least one key must be provided"
  | .noItems => "At least one item must be provided"
  | .noWrites => "At least one write request must be provided"
  | .noTransactions => "At least one transaction must be provided"
  | .tooManyTransactions most =>
    "No more than " ++ toString most ++ " transactions can be provided"
  | .checkWithoutCondition => "A condition check requires a condition"
  | .updateWithoutAction => "An update requires at least one action"
  | .ratioNotPositive => "The ratio must be positive"
  | .noAttempts => "At least one attempt must be allowed"

/-- How a call fails. -/
inductive Failure where
  | rejected (reason : Rejection)
  | expression (fault : ExpressionFault)
  /-- The deadline of an attempt passed. -/
  | timeout (after : Duration)
  /-- Another attempt may succeed. -/
  | transient (error : TransportError)
  /-- No other attempt will succeed. -/
  | fatal (error : TransportError)
deriving DecidableEq

namespace Failure

/-- The failure that a transport error is. -/
def ofTransport (e : TransportError) : Failure :=
  if e.isRetryable then .transient e else .fatal e

/-- Whether another attempt is worth making. -/
def isRetryable : Failure → Bool
  | .timeout _ | .transient _ => true
  | _ => false

/-- The text of a failure. -/
def text : Failure → String
  | .rejected reason => "validation failed: " ++ reason.message
  | .expression fault => fault.message
  | .timeout after => "attempt timed out after " ++ after.text
  | .transient e => "transient failure: " ++ e.text
  | .fatal e => e.text

/-- The text of what caused a failure. A fatal failure is its transport error, so its cause
is the cause of that; a transient one is caused by it. -/
def cause? : Failure → Option String
  | .transient e => some e.text
  | .fatal e => e.cause?
  | _ => none

end Failure

/-- The result of a call. -/
abbrev Outcome (α : Type) := Except Failure α

end TableClient
