import TableClient.Number.Binary

/-! The shortest decimal text of a double.

Among the decimals that lie nearer to a double than to any other, the text is one with
the fewest digits and, of those, the one nearest to the double; of two equally near it is
the one further from zero. It is written positionally, with neither exponent nor a
fraction that is zero. -/
namespace TableClient.Number

namespace Shortest

/-- The decimals that read as a magnitude, as bounds over a common denominator. -/
structure Interval where
  low : Nat
  value : Nat
  high : Nat
  denominator : Nat
  /-- Whether the bounds themselves belong to it. -/
  closed : Bool

/-- The interval of a magnitude: halfway to its two neighbours. Below a power of two the
neighbours are twice as close. -/
def interval (b : Binary) : Interval :=
  let below := if b.mantissa = Binary.fractions ∧ b.exponent ≠ -1074 then 1 else 2
  let (n, d) := Binary.fraction ⟨1, b.exponent - 2⟩
  { low := (4 * b.mantissa - below) * n
    value := 4 * b.mantissa * n
    high := (4 * b.mantissa + 2) * n
    denominator := d
    closed := b.mantissa % 2 = 0 }

/-- `n * 10 ^ e` and `d` brought to natural numbers. -/
def scaled (n : Nat) (e : Int) (d : Nat) : Nat × Nat :=
  match e with
  | .ofNat k => (n * Nat.pow 10 k, d)
  | .negSucc k => (n, d * Nat.pow 10 (k + 1))

/-- Whether `digits * 10 ^ e` lies in the interval. -/
def Interval.contains (i : Interval) (digits : Nat) (e : Int) : Bool :=
  let (n, d) := scaled digits e 1
  let x := n * i.denominator
  if i.closed then i.low * d ≤ x && x ≤ i.high * d
  else i.low * d < x && x < i.high * d

/-- The exponent of the leading digit of the value. No magnitude of a double is below
`10 ^ -400`. -/
def Interval.leading (i : Interval) : Int :=
  ((Nat.toDigits 10 (i.value * Nat.pow 10 400 / i.denominator)).length : Int) - 401

/-- Of the two decimals around the value on the grid of step `10 ^ e`, the one that lies in
the interval; of two the nearer, and of two equally near the greater. -/
def Interval.onGrid (i : Interval) (e : Int) : Option Nat :=
  let (n, d) := scaled i.value (-e) i.denominator
  let down := n / d
  match i.contains down e, i.contains (down + 1) e with
  | true, true => some (if 2 * (n % d) < d then down else down + 1)
  | true, false => some down
  | false, true => some (down + 1)
  | false, false => none

/-- The first grid from `digits` digits on that has a decimal in the interval. -/
def Interval.search (i : Interval) : Nat → Nat → Nat × Int
  | 0, digits => (i.value, i.leading - digits)
  | left + 1, digits =>
    let e := i.leading - digits + 1
    match i.onGrid e with
    | some n => (n, e)
    | none => i.search left (digits + 1)

/-- The shortest decimal of a magnitude, as digits and exponent. Seventeen digits tell any
two doubles apart. -/
def digits (b : Binary) : Nat × Int :=
  (interval b).search 17 1

end Shortest

/-- The digits `n * 10 ^ e` written positionally. -/
def positional (n : Nat) (e : Int) : String :=
  let digits := Nat.toDigits 10 n
  match e with
  | .ofNat k => String.ofList (digits ++ List.replicate k '0')
  | .negSucc k =>
    let padded := List.replicate (k + 2 - digits.length) '0' ++ digits
    let whole := padded.take (padded.length - (k + 1))
    let fraction := padded.drop (padded.length - (k + 1))
    let kept := (fraction.reverse.dropWhile (· = '0')).reverse
    if kept = [] then String.ofList whole
    else String.ofList (whole ++ '.' :: kept)

/-- The shortest positional text of a double. -/
def decimalText (x : Float) : String :=
  match Binary.ofFloat? x with
  | none =>
    if x.toBits.toNat % Binary.fractions ≠ 0 then "NaN"
    else if isNegative x then "-inf"
    else "inf"
  | some b =>
    let magnitude :=
      if b.mantissa = 0 then "0"
      else
        let (n, e) := Shortest.digits b
        positional n e
    if isNegative x then "-" ++ magnitude else magnitude

end TableClient.Number
