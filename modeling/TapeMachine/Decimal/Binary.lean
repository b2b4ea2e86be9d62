/-!
# Floating-point numbers as exact fractions

A finite floating-point number is a whole number times a power of two. Through
that form it is compared with whole numbers and divided with remainder without
any rounding but the last one.
-/

namespace TapeMachine.Decimal

/-- The whole number `m` and exponent `q` of a finite number `m * 2 ^ q`. -/
def parts? (x : Float) : Option (Int × Int) :=
  let bits := x.toBits.toNat
  let exponent : Nat := (bits >>> 52) % 2048
  let fraction : Nat := bits % (1 <<< 52)
  if exponent = 2047 then none
  else
    let m : Nat := if exponent = 0 then fraction else fraction + (1 <<< 52)
    let q : Int := (max exponent 1 : Nat) - 1075
    some (if bits >>> 63 = 1 then -(m : Int) else m, q)

/-- `m * 2 ^ q` as a fraction. -/
def fraction (m q : Int) : Int × Nat :=
  if 0 ≤ q then (m * (1 <<< q.toNat : Nat), 1) else (m, 1 <<< (-q).toNat)

/-- The whole part of a finite number, rounded toward zero. -/
def truncate? (x : Float) : Option Int :=
  (parts? x).map fun (m, q) =>
    let (n, d) := fraction m q
    n.tdiv d

/-- The order of two floating-point numbers, where NaN comes last. -/
def compareFloats (x y : Float) : Ordering :=
  if x < y then .lt
  else if x > y then .gt
  else if x == y then .eq
  else compare x.isNaN y.isNaN

/-- The order of a whole number and a floating-point number. -/
def compareInt (n : Int) (x : Float) : Ordering :=
  match parts? x with
  | some (m, q) =>
    let (num, den) := fraction m q
    compare (n * den) num
  | none => if x.isNaN || x > 0 then .lt else .gt

/-- The nearest floating-point number, if it is finite. -/
def ofInt? (n : Int) : Option Float :=
  let x := Float.ofInt n
  if x.isInf then none else some x

/-- Whether the sign bit is set, which tells the two zeros apart. -/
def isNegative (x : Float) : Bool := x.toBits.toNat >>> 63 = 1

/-- The remainder of a division rounded toward minus infinity. A zero remainder has
the sign of `x`. -/
def floorMod (x y : Float) : Float :=
  match parts? x, parts? y with
  | some (m, q), some (k, r) =>
    let low := min q r
    let a := m.natAbs <<< (q - low).toNat
    let b := k.natAbs <<< (r - low).toNat
    let size := (Float.ofNat (a % b)).scaleB low
    let z := if isNegative x then -size else size
    if decide (x < 0) != decide (y < 0) && z != 0 then z + y else z
  | some _, none =>
    if y.isNaN then y
    else if decide (x < 0) != decide (y < 0) && x != 0 then x + y
    else x
  | none, _ => 0 / 0

/-- The value of a decimal `mantissa * 10 ^ scale`, if it is finite. -/
def ofScientific? (mantissa : Nat) (scale : Int) : Option Float :=
  if mantissa = 0 then some 0
  else
    let size := (Nat.toDigits 10 mantissa).length + scale
    if 310 < size then none
    else if size < -400 then some 0
    else
      let x := OfScientific.ofScientific mantissa (scale < 0) scale.natAbs
      if Float.isInf x then none else some x

end TapeMachine.Decimal
