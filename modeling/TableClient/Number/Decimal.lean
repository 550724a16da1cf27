import TableClient.Number.Digits
import TableClient.Number.Double

/-! Decimal texts as doubles.

A decimal text is a sign, digits with at most one point among them, and an exponent;
it reads as the nearest double. The words for infinity and for no number are read in
any case. -/
namespace TableClient.Number

/-- A run of digits and what follows it. -/
def spanDigits (chars : List Char) : List Char × List Char :=
  (chars.takeWhile isDigit, chars.dropWhile isDigit)

/-- Whether two runs of characters are the same word but for the case of ASCII letters. -/
def sameWord (chars word : List Char) : Bool :=
  chars.map Char.toLower = word

/-- The nearest double to `digits * 10 ^ exponent`. An exponent that puts every number with
so many digits out of reach is not computed with. -/
def nearest (digits : Nat) (exponent : Int) : Float :=
  let size : Int := (Nat.toDigits 10 digits).length
  if digits = 0 then 0.0
  else if exponent + size > 400 then 1.0 / 0.0
  else if exponent + size < -400 then 0.0
  else Float.ofScientific digits (exponent < 0) exponent.natAbs

/-- Reads the exponent that may end a number: nothing, or its mark and a signed run of
digits. -/
def readExponent : List Char → Option Int
  | [] => some 0
  | mark :: rest => do
    if mark ≠ 'e' ∧ mark ≠ 'E' then failure
    let (negative, digits) := match rest with
      | '-' :: digits => (true, digits)
      | '+' :: digits => (false, digits)
      | digits => (false, digits)
    let n ← ofDigits? digits
    return if negative then -(n : Int) else n

/-- Reads a magnitude: digits on at least one side of the point. -/
def readMagnitude (chars : List Char) : Option Float :=
  if sameWord chars "inf".toList || sameWord chars "infinity".toList then some (1.0 / 0.0)
  else if sameWord chars "nan".toList then some (Float.ofBits 0x7ff8000000000000)
  else do
    let (whole, rest) := spanDigits chars
    let (fraction, rest) := match rest with
      | '.' :: rest => spanDigits rest
      | rest => ([], rest)
    let digits ← ofDigits? (whole ++ fraction)
    let exponent ← readExponent rest
    return nearest digits (exponent - fraction.length)

/-- Reads a decimal text as the nearest double. A minus sign counts even before what is no
number. -/
def readDouble (chars : List Char) : Option Double :=
  match chars with
  | '-' :: rest => (readMagnitude rest).map fun x => (Double.ofFloat x).negated
  | '+' :: rest => (readMagnitude rest).map .ofFloat
  | _ => (readMagnitude chars).map .ofFloat

end TableClient.Number
