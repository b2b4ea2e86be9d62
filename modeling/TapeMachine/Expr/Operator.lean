import TapeMachine.Expr.Value

/-!
# Operators on values

Division and remainder of whole numbers round toward minus infinity. Texts and
sequences are joined by addition and repeated by multiplication.
-/

namespace TapeMachine.Expr.Value

/-- A whole number that fits into 32 bits, where a count or index is asked for. -/
def small? : Value → Option Int
  | int n => if -0x80000000 ≤ n ∧ n < 0x80000000 then some n else none
  | _ => none

/-- The most elements that a repetition may have. -/
def repeatLimit : Nat := 0x40000000

/-- A sequence repeated `n` times, and not at all for a negative number. -/
def repeat? {α : Type} (xs : List α) (n : Int) : Option (List α) :=
  if xs.isEmpty then some []
  else
    match small? (int n) with
    | none => none
    | some n =>
      if repeatLimit ≤ xs.length * n.toNat then none
      else some (List.replicate n.toNat xs).flatten

/-- Both operands as floating-point numbers, if both are finite numbers. -/
def floats? : Value → Value → Option (Float × Float)
  | float x, float y => some (x, y)
  | float x, int n => (Decimal.ofInt? n).map fun y => (x, y)
  | int n, float y => (Decimal.ofInt? n).map fun x => (x, y)
  | int n, int k => do
    let x ← Decimal.ofInt? n
    let y ← Decimal.ofInt? k
    return (x, y)
  | _, _ => none

/-- A floating-point operation on two numbers. -/
def onFloats (f : Float → Float → Float) (x y : Value) : Option Value :=
  (floats? x y).map fun (a, b) => float (f a b)

/-- A floating-point operation that has no result for a zero on the right. -/
def onNonzero (f : Float → Float → Float) (x y : Value) : Option Value := do
  let (a, b) ← floats? x y
  if b == 0 then none else return float (f a b)

/-- The sum of two values. -/
def add? : Value → Value → Option Value
  | int a, int b => some (int (a + b))
  | text a, text b => some (text (a ++ b))
  | list a, list b => some (list (a ++ b))
  | tuple a, tuple b => some (tuple (a ++ b))
  | x, y => onFloats (· + ·) x y

/-- The difference of two numbers. -/
def sub? : Value → Value → Option Value
  | int a, int b => some (int (a - b))
  | x, y => onFloats (· - ·) x y

/-- The product of two numbers, or a repetition. -/
def mul? : Value → Value → Option Value
  | int a, int b => some (int (a * b))
  | int n, text a | text a, int n => (repeat? a n).map text
  | int n, list a | list a, int n => (repeat? a n).map list
  | int n, tuple a | tuple a, int n => (repeat? a n).map tuple
  | x, y => onFloats (· * ·) x y

/-- The quotient of two numbers, rounded toward minus infinity. -/
def floorDiv? : Value → Value → Option Value
  | int a, int b => if b = 0 then none else some (int (a.fdiv b))
  | x, y => onNonzero (fun a b => (a / b).floor) x y

/-- The remainder that belongs to `floorDiv?`. -/
def mod? : Value → Value → Option Value
  | int a, int b => if b = 0 then none else some (int (a.fmod b))
  | x, y => onNonzero Decimal.floorMod x y

/-- The bitwise combination of a whole number with another, where a negative
number has infinitely many ones in front. -/
def bitwise (f : Bool → Bool → Bool) (a b : Int) : Int :=
  let magnitude (n : Int) : Nat := if n < 0 then (-n - 1).toNat else n.toNat
  let low := Nat.bitwise (fun p q => f (p != (a < 0)) (q != (b < 0)) != f (a < 0) (b < 0))
    (magnitude a) (magnitude b)
  if f (a < 0) (b < 0) then -(low : Int) - 1 else low

/-- A bitwise operation on two whole numbers. -/
def onBits (f : Bool → Bool → Bool) : Value → Value → Option Value
  | int a, int b => some (int (bitwise f a b))
  | _, _ => none

/-- The longest shift to the left. -/
def shiftLimit : Int := 512

/-- A shift to the left. -/
def shiftLeft? : Value → Value → Option Value
  | int a, y => do
    let n ← small? y
    if n < 0 ∨ shiftLimit ≤ n then none else return int (a * (1 <<< n.toNat : Nat))
  | _, _ => none

/-- A shift to the right, rounded toward minus infinity. -/
def shiftRight? : Value → Value → Option Value
  | int a, y => do
    let n ← small? y
    if n < 0 then none else return int (a >>> n.toNat)
  | _, _ => none

/-- Whether some bytes stand together inside others. -/
def hasPart (part : List UInt8) : List UInt8 → Bool
  | [] => part.isEmpty
  | b :: bs => part.isPrefixOf (b :: bs) || hasPart part bs

/-- Whether a value is in a container; for texts, whether it is a part. -/
def contains? (x : Value) : Value → Option Bool
  | list ys => member? x ys
  | tuple ys => member? x ys
  | text bytes =>
    match x with
    | text part => some (hasPart part bytes)
    | _ => none
  | _ => none

/-- The result of a binary operator. -/
def binary? (op : BinaryOp) (x y : Value) : Option Value :=
  match op with
  | .compare c => (compare? c x y).map bool
  | .isIn => (contains? x y).map bool
  | .notIn => (contains? x y).map fun b => bool !b
  | .bitOr => onBits (· || ·) x y
  | .bitXor => onBits (· != ·) x y
  | .bitAnd => onBits (· && ·) x y
  | .shiftLeft => shiftLeft? x y
  | .shiftRight => shiftRight? x y
  | .add => add? x y
  | .sub => sub? x y
  | .mul => mul? x y
  | .div => onNonzero (· / ·) x y
  | .floorDiv => floorDiv? x y
  | .mod => mod? x y

/-- The result of an operator in front of a number. -/
def unary? : UnaryOp → Value → Option Value
  | .plus, int n => some (int n)
  | .minus, int n => some (int (-n))
  | .invert, int n => some (int (-n - 1))
  | .plus, float x => some (float x)
  | .minus, float x => some (float (-x))
  | _, _ => none

/-- The element at an index, which counts from the end if it is negative. -/
def element? {α : Type} (xs : List α) (i : Int) : Option α :=
  let i := if i < 0 then i + xs.length else i
  if i < 0 then none else xs[i.toNat]?

/-- The element of a sequence, or the part of a text of one byte. -/
def index? (x i : Value) : Option Value := do
  let n ← small? i
  match x with
  | list xs => element? xs n
  | tuple xs => element? xs n
  | text bytes => (element? bytes n).map fun b => text [b]
  | _ => none

end TapeMachine.Expr.Value
