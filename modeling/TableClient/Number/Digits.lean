/-! Decimal digits as natural numbers.

Digits are the ten of ASCII and nothing else. -/
namespace TableClient.Number

/-- The value of a decimal digit. -/
def digitValue? (c : Char) : Option Nat :=
  if '0' ≤ c ∧ c ≤ '9' then some (c.toNat - '0'.toNat) else none

/-- Whether a character is a decimal digit. -/
def isDigit (c : Char) : Bool := (digitValue? c).isSome

/-- The number that a run of digits writes after those that wrote `acc`. -/
def ofDigitsFrom (acc : Nat) : List Char → Option Nat
  | [] => some acc
  | c :: rest => do ofDigitsFrom (acc * 10 + (← digitValue? c)) rest

/-- The number that a run of digits, at least one, writes. -/
def ofDigits? : List Char → Option Nat
  | [] => none
  | digits => ofDigitsFrom 0 digits

/-- Reads digits, with or without a plus sign before them, as a number up to `largest`. -/
def readUpTo (largest : Nat) (chars : List Char) : Option Nat := do
  let digits := match chars with
    | '+' :: rest => rest
    | _ => chars
  let n ← ofDigits? digits
  if n ≤ largest then some n else none

/-- The greatest number of 32 bits. -/
def max32 : Nat := 4294967295

/-- The greatest number of 32 bits with a sign. -/
def maxSigned32 : Nat := 2147483647

/-- The greatest number of 64 bits. -/
def max64 : Nat := 18446744073709551615

/-- The greatest number of 64 bits with a sign. -/
def maxSigned64 : Nat := 9223372036854775807

end TableClient.Number
