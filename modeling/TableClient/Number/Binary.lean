/-! Doubles as exact binary fractions.

A finite double is a sign and a value `mantissa * 2 ^ exponent`. What follows from that
exactly is computed on natural numbers: the rounding of a fraction to the nearest
integer, and products with powers of two that may be negative. -/
namespace TableClient.Number

/-- A finite magnitude `mantissa * 2 ^ exponent`. -/
structure Binary where
  mantissa : Nat
  exponent : Int
deriving DecidableEq

namespace Binary

/-- How many fractions go with one exponent. -/
def fractions : Nat := 4503599627370496

/-- How many exponents there are. -/
def exponents : Nat := 2048

/-- The magnitude of a double, `none` if it is infinite or no number. -/
def ofFloat? (x : Float) : Option Binary :=
  let bits : Nat := x.toBits.toNat
  let field : Nat := bits / fractions % exponents
  let fraction : Nat := bits % fractions
  if field = exponents - 1 then none
  else if field = 0 then some ⟨fraction, -1074⟩
  else some ⟨fraction + fractions, (field : Int) - 1075⟩

/-- The magnitude as a fraction of natural numbers. -/
def fraction (b : Binary) : Nat × Nat :=
  match b.exponent with
  | .ofNat e => (b.mantissa * Nat.pow 2 e, 1)
  | .negSucc e => (b.mantissa, Nat.pow 2 (e + 1))

end Binary

/-- Whether a double carries a minus sign. -/
def isNegative (x : Float) : Bool := Binary.fractions * Binary.exponents ≤ x.toBits.toNat

/-- The integer nearest to `n / d`; of two equally near the even one. -/
def roundDiv (n d : Nat) : Nat :=
  let q := n / d
  let r := n % d
  if 2 * r < d then q
  else if d < 2 * r then q + 1
  else if q % 2 = 0 then q
  else q + 1

end TableClient.Number
