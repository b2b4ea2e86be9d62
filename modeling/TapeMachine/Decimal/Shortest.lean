import TapeMachine.Decimal.Binary

/-!
# Shortest decimals

The text of a floating-point number has the fewest digits that still single it
out among all floating-point numbers, and of those the nearest ones. A tie goes
to the even last digit.
-/

namespace TapeMachine.Decimal

/-- The value `num / den`, and the ends of the range of reals that round to it. -/
structure Interval where
  num : Nat
  low : Nat
  high : Nat
  den : Nat
  /-- Whether the ends themselves round to the value. -/
  closed : Bool

/-- The reals that round to `m * 2 ^ q`. Below a power of two the gap is half as
wide. -/
def Interval.around (m : Nat) (q : Int) : Interval :=
  let below := if m = 1 <<< 52 ∧ -1074 < q then 4 * m - 1 else 4 * m - 2
  let up := 1 <<< (q - 2).toNat
  ⟨4 * m * up, below * up, (4 * m + 2) * up, 1 <<< (2 - q).toNat, m % 2 == 0⟩

/-- Whether the fraction `n / d` rounds to the value. -/
def Interval.holds (i : Interval) (n d : Nat) : Bool :=
  if i.closed then i.low * d ≤ n * i.den && n * i.den ≤ i.high * d
  else i.low * d < n * i.den && n * i.den < i.high * d

/-- How many digits stand before the point of `num / den`; for a value below one
this is minus the number of zeros after the point. -/
def pointOf (num den : Nat) : Int :=
  if den ≤ num then (Nat.toDigits 10 (num / den)).length
  else zeros 400 num 0
where
  zeros : Nat → Nat → Int → Int
    | 0, _, k => k
    | fuel + 1, n, k => if den ≤ n * 10 then k else zeros fuel (n * 10) (k - 1)

/-- A decimal with `count` digits in the interval, if there is one. Of two the
nearer is taken, and of two equally near ones the even one. -/
def Interval.withDigits? (i : Interval) (point : Int) (count : Nat) : Option Nat :=
  let scale := point - count
  let up := Nat.pow 10 scale.toNat
  let down := Nat.pow 10 (-scale).toNat
  let digits := i.num * down / (i.den * up)
  let lower := i.holds (digits * up) down
  let upper := i.holds ((digits + 1) * up) down
  let remainder := i.num * down - digits * (i.den * up)
  if lower && upper then
    match compare (2 * remainder) (i.den * up) with
    | .lt => some digits
    | .eq => some (if digits % 2 = 0 then digits else digits + 1)
    | .gt => some (digits + 1)
  else if lower then some digits
  else if upper then some (digits + 1)
  else none

/-- The shortest decimal in the interval, tried with `count` digits and more, and
the number of digits that it was tried with. -/
def Interval.shortest (i : Interval) (point : Int) : (fuel count : Nat) → Nat × Nat
  | 0, count => (0, count)
  | fuel + 1, count =>
    match i.withDigits? point count with
    | some digits => (digits, count)
    | none => i.shortest point fuel (count + 1)

/-- Digits and decimal point of a positive number `m * 2 ^ q`. A number just
below a power of ten may round up to it, which moves the point. -/
def shortest (m : Nat) (q : Int) : List Char × Int :=
  let i := Interval.around m q
  let point := pointOf i.num i.den
  let (value, count) := i.shortest point 17 1
  let digits := Nat.toDigits 10 value
  ((digits.reverse.dropWhile (· == '0')).reverse, point + (digits.length - count : Nat))

/-- The text of a positive number from its digits: positional for exponents from
-4 to 5, with a point in any case, and in scientific form otherwise. -/
def layout (digits : List Char) (point : Int) : List Char :=
  let exponent := point - 1
  if exponent < -4 ∨ 6 ≤ exponent then
    let mantissa := match digits with
      | [] => []
      | [d] => [d]
      | d :: ds => d :: '.' :: ds
    let size := Nat.toDigits 10 exponent.natAbs
    let padded := if size.length < 2 then '0' :: size else size
    mantissa ++ ['e', if exponent < 0 then '-' else '+'] ++ padded
  else if point ≤ 0 then
    ['0', '.'] ++ List.replicate (-point).toNat '0' ++ digits
  else
    let whole := digits.take point.toNat
    let part := digits.drop point.toNat
    whole ++ List.replicate (point.toNat - whole.length) '0' ++
      '.' :: (if part.isEmpty then ['0'] else part)

/-- The text of a floating-point number. -/
def text (x : Float) : List Char :=
  match parts? x with
  | none => if x.isNaN then "nan".toList else if x < 0 then "-inf".toList else "+inf".toList
  | some (m, q) =>
    let sign := if isNegative x then ['-'] else []
    if m = 0 then sign ++ "0.0".toList
    else
      let (digits, point) := shortest m.natAbs q
      sign ++ layout digits point

end TapeMachine.Decimal
