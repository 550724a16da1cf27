import TableClient.Number.Binary
import TableClient.Number.Digits

/-! Lengths of time.

A duration is a number of nanoseconds up to a greatest one; sums and products stop
there. Seconds in double arithmetic are rounded to the nearest nanosecond. -/
namespace TableClient

/-- Nanoseconds in a second. -/
def Duration.second : Nat := 1000000000

/-- Nanoseconds in the longest duration. -/
def Duration.longest : Nat := (Number.max64 + 1) * Duration.second - 1

/-- A length of time. -/
structure Duration where
  nanos : Nat
  nanos_le : nanos ≤ Duration.longest
deriving DecidableEq

namespace Duration

/-- The longest duration. -/
def max : Duration := ⟨longest, Nat.le_refl _⟩

/-- A number of nanoseconds, or the longest duration if there are too many. -/
def ofNanos (n : Nat) : Duration := ⟨min n longest, Nat.min_le_right _ _⟩

/-- A number of milliseconds. -/
def ofMillis (n : Nat) : Duration := ofNanos (n * 1000000)

/-- A number of seconds and nanoseconds. -/
def ofSeconds (seconds nanos : Nat) : Duration := ofNanos (seconds * second + nanos)

instance : Inhabited Duration := ⟨ofNanos 0⟩

/-- The whole seconds. -/
def seconds (d : Duration) : Nat := d.nanos / second

/-- The nanoseconds beyond the whole seconds. -/
def subsecond (d : Duration) : Nat := d.nanos % second

/-- The whole milliseconds. -/
def millis (d : Duration) : Nat := d.nanos / 1000000

/-- Thirty years in milliseconds. -/
def thirtyYears : Nat := 30 * 365 * 24 * 60 * 60 * 1000

/-- The milliseconds until a deadline on a clock that counts whole ones: a part of one counts as
one. A length whose seconds do not fit 64 bits with a sign is out of the clock's reach, and
thirty years stand for it. -/
def ticks (d : Duration) : Nat :=
  if d.seconds ≤ Number.maxSigned64 then (d.nanos + 999999) / 1000000 else thirtyYears

/-- The milliseconds that a sleep takes on the same clock. No sleep is longer than thirty
years. -/
def sleepTicks (d : Duration) : Nat := min d.ticks thirtyYears

/-- A multiple of a duration, up to the longest. -/
def times (d : Duration) (n : Nat) : Duration := ofNanos (d.nanos * n)

/-- The shorter of two durations. -/
def shorter (a b : Duration) : Duration := if a.nanos ≤ b.nanos then a else b

/-! ### Double arithmetic -/

/-- The seconds as a double: the whole ones plus the fraction. -/
def toFloat (d : Duration) : Float :=
  Float.ofNat d.seconds + Float.ofNat d.subsecond / Float.ofNat second

/-- The duration of a number of seconds, to the nearest nanosecond; of two equally near the
even one. There is none for what is negative, no number, or too long. -/
def ofFloat? (seconds : Float) : Option Duration :=
  match Number.Binary.ofFloat? seconds with
  | none => none
  | some b =>
    if Number.isNegative seconds ∧ b.mantissa ≠ 0 then none
    else
      let (n, d) := b.fraction
      let nanos := Number.roundDiv (n * second) d
      if nanos ≤ longest then some (ofNanos nanos) else none

/-! ### Text -/

/-- A number of units and a fraction of one, given as `rest` of `whole` parts, with
no zeros at its end. -/
def decimal (units rest places : Nat) : String :=
  let digits := Nat.toDigits 10 rest
  let padded := List.replicate (places - digits.length) '0' ++ digits
  let kept := (padded.reverse.dropWhile (· = '0')).reverse
  if rest = 0 then toString units else toString units ++ "." ++ String.ofList kept

/-- The text of a duration, in the largest unit of which it holds at least one. -/
def text (d : Duration) : String :=
  if second ≤ d.nanos then decimal d.seconds d.subsecond 9 ++ "s"
  else if 1000000 ≤ d.nanos then decimal (d.nanos / 1000000) (d.nanos % 1000000) 6 ++ "ms"
  else if 1000 ≤ d.nanos then decimal (d.nanos / 1000) (d.nanos % 1000) 3 ++ "µs"
  else decimal d.nanos 0 0 ++ "ns"

/-- Seconds and nine digits of nanoseconds. -/
def stamp (d : Duration) : String :=
  let digits := Nat.toDigits 10 d.subsecond
  toString d.seconds ++ "." ++ String.ofList (List.replicate (9 - digits.length) '0' ++ digits)

end Duration

end TableClient
