import TableClient.Number.Decimal
import TableClient.Service.Failure
import TableClient.Text.Blank

/-! Settings of a client: time budgets, retries and the splitting of scans.

The delay between attempts grows by a factor up to a greatest delay; the factor of an
attempt stops at the greatest number of 32 bits. The deadline of an attempt grows with its
number. -/
namespace TableClient

/-- How failed attempts are repeated. -/
structure Backoff where
  /-- All attempts, the first included. -/
  maxAttempts : Nat := 6
  /-- The delay after the first failed attempt. -/
  minDelay : Duration := .ofMillis 100
  /-- The greatest delay. -/
  maxDelay : Duration := .ofSeconds 5 0
  /-- Growth of the delay from one attempt to the next. -/
  factor : Nat := 2
deriving DecidableEq

namespace Backoff

/-- A power up to the greatest number of 32 bits. Any base from two on passes it at 32. -/
def cappedPow (base exponent : Nat) : Nat :=
  if base = 0 then (if exponent = 0 then 1 else 0)
  else if base = 1 then 1
  else if 32 ≤ exponent then Number.max32
  else min (Nat.pow base exponent) Number.max32

/-- The delay after an attempt, counted from one, has failed. -/
def delayAfter (b : Backoff) (attempt : Nat) : Duration :=
  (b.minDelay.times (cappedPow b.factor (attempt - 1))).shorter b.maxDelay

end Backoff

/-- Settings of a client. -/
structure Settings where
  /-- The budget of operations on a single item. -/
  shortBudget : Duration := .ofSeconds 1 0
  /-- The budget of all other operations. -/
  longBudget : Duration := .ofSeconds 5 0
  /-- Stretches every deadline. -/
  patience : Double := .ofFloat 1.0
  backoff : Backoff := {}
  /-- Segments of a scan that asks for nothing else. -/
  scanSegments : Nat := 10
deriving DecidableEq

namespace Settings

/-- Whether a ratio stretches deadlines to a positive length. -/
def isPositiveRatio (ratio : Double) : Bool := ratio.toFloat.isFinite && ratio.toFloat > 0.0

/-- The settings with another patience. -/
def withPatience (s : Settings) (ratio : Double) : Outcome Settings :=
  if isPositiveRatio ratio then .ok { s with patience := ratio }
  else .error (.rejected .ratioNotPositive)

/-- Checks that deadlines are positive and that there is an attempt. -/
def validate (s : Settings) : Outcome Unit :=
  if !isPositiveRatio s.patience then .error (.rejected .ratioNotPositive)
  else if s.backoff.maxAttempts = 0 then .error (.rejected .noAttempts)
  else .ok ()

/-- The budget of an operation. -/
def budget (s : Settings) (op : Operation) : Duration :=
  if op.isSingleItem then s.shortBudget else s.longBudget

/-- The deadline of an attempt, counted from one: the budget times the number of the attempt
times the patience, or the longest duration if that is none. -/
def deadline (s : Settings) (op : Operation) (attempt : Nat) : Duration :=
  (Duration.ofFloat? ((s.budget op).toFloat * Float.ofNat attempt * s.patience.toFloat)).getD .max

end Settings

/-- Where requests over HTTP are sent. -/
structure HttpSettings where
  endpoint : String := "http://localhost:8000"
  requestTimeout : Duration := .ofSeconds 6 0
deriving DecidableEq

/-! ### Variables

Settings may be given as texts under fixed names. White space around a text does not
count; a text that is no value of its setting is as good as none. -/

/-- Texts by name. -/
abbrev Variables := String → Option String

namespace Variables

/-- The value of a variable, or a default. -/
def read {α : Type} (vars : Variables) (name : String) (parse : List Char → Option α)
    (default : α) : α :=
  match vars name with
  | none => default
  | some text => (parse (Text.trimBlank text.toList)).getD default

/-- A duration given in milliseconds. -/
def millis (vars : Variables) (name : String) (default : Duration) : Duration :=
  .ofMillis (vars.read name (Number.readUpTo Number.max64) default.millis)

/-- A number of 32 bits. -/
def count (vars : Variables) (name : String) (default : Nat) : Nat :=
  vars.read name (Number.readUpTo Number.max32) default

/-- The settings that the variables give. -/
def settings (vars : Variables) : Settings :=
  let default : Settings := {}
  { shortBudget := vars.millis "SHORT_LATENCY_MS" default.shortBudget
    longBudget := vars.millis "LONG_LATENCY_MS" default.longBudget
    patience := vars.read "PATIENCE_RATIO" Number.readDouble default.patience
    backoff :=
      { maxAttempts := vars.count "MAX_ATTEMPTS" default.backoff.maxAttempts
        minDelay := vars.millis "RETRY_MIN_DELAY_MS" default.backoff.minDelay
        maxDelay := vars.millis "RETRY_MAX_DELAY_MS" default.backoff.maxDelay
        factor := default.backoff.factor }
    scanSegments := vars.count "SCAN_SEGMENTS" default.scanSegments }

/-- The settings of HTTP that the variables give. The endpoint is taken as it is. -/
def httpSettings (vars : Variables) : HttpSettings :=
  let default : HttpSettings := {}
  { endpoint := (vars "ENDPOINT_URL").getD default.endpoint
    requestTimeout := vars.millis "REQUEST_TIMEOUT_MS" default.requestTimeout }

end Variables

end TableClient
