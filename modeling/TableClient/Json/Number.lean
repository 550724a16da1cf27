import TableClient.Json
import TableClient.Number.Digits

/-! Numbers of a JSON text.

An integer that fits 64 bits is kept as it is. Any other number becomes a double: its
leading digits, as many as fit 64 bits, are converted and then scaled by the power of
ten in double arithmetic. Numbers beyond the range of doubles cannot be held. -/
namespace TableClient.Json

/-- The leading digits of a number and the power of ten by which they are scaled. -/
structure Decimal where
  significand : Nat
  exponent : Int
deriving DecidableEq

namespace Decimal

/-- The digits of the whole part. Once a digit does not fit any more, it and all that follow
only raise the exponent. -/
def whole (acc : Nat) : List Nat → Decimal
  | [] => ⟨acc, 0⟩
  | d :: rest =>
    if acc * 10 + d ≤ Number.max64 then whole (acc * 10 + d) rest
    else ⟨acc, (rest.length : Int) + 1⟩

/-- Adds the digits after the point, up to the first that does not fit. -/
def addFraction (n : Decimal) : List Nat → Decimal
  | [] => n
  | d :: rest =>
    if n.significand * 10 + d ≤ Number.max64 then
      addFraction ⟨n.significand * 10 + d, n.exponent - 1⟩ rest
    else n

/-- Greatest power of ten that scales in one step. -/
def stepLimit : Nat := 308

/-- A power of ten as a double. -/
def tenTo (k : Nat) : Float := Float.ofScientific 1 false k

/-- Scales a double by a power of ten; `none` when it leaves the range. Two steps down take
every number of 64 bits to zero. -/
def scale : Nat → Float → Int → Option Float
  | 0, x, _ => some x
  | steps + 1, x, exponent =>
    if exponent.natAbs ≤ stepLimit then
      if 0 ≤ exponent then
        let y := x * tenTo exponent.natAbs
        if y.isInf then none else some y
      else some (x / tenTo exponent.natAbs)
    else if x == 0.0 then some x
    else if 0 ≤ exponent then none
    else scale steps (x / tenTo stepLimit) (exponent + stepLimit)

/-- The magnitude as a double. -/
def toFloat? (n : Decimal) : Option Float :=
  scale 3 (Float.ofNat n.significand) n.exponent

end Decimal

/-- The value of a number without fraction and exponent. Minus zero is a double. -/
def ofWhole (negative : Bool) (digits : List Nat) : Json :=
  let n := Decimal.whole 0 digits
  let float : Json := match n.toFloat? with
    | none => .fault .unreadable
    | some x => .float (if negative then -x else x)
  if n.exponent ≠ 0 then float
  else if !negative then .int n.significand
  else if n.significand = 0 ∨ Number.maxSigned64 + 1 < n.significand then float
  else .int (-(n.significand : Int))

/-- The value of a number with a fraction or an exponent. -/
def ofDecimal (negative : Bool) (digits fraction : List Nat) (exponent : Int) : Json :=
  let n := (Decimal.whole 0 digits).addFraction fraction
  match Decimal.toFloat? ⟨n.significand, n.exponent + exponent⟩ with
  | none => .fault .unreadable
  | some x => .float (if negative then -x else x)

end TableClient.Json
