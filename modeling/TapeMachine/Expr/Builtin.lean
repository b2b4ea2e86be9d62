import TapeMachine.Expr.Operator
import TapeMachine.Expr.Token

/-!
# Functions of expressions

The functions that every script can call: lengths, extremes, absolute values and
conversions.
-/

namespace TapeMachine.Expr

namespace Value

/-- The length of a text or sequence. -/
def length? : Value → Option Nat
  | text bytes => some bytes.length
  | list xs => some xs.length
  | tuple xs => some xs.length
  | _ => none

/-- The elements of a sequence. Texts are no sequences here. -/
def elements? : Value → Option (List Value)
  | list xs => some xs
  | tuple xs => some xs
  | _ => none

/-- The absolute value of a number. -/
def abs? : Value → Option Value
  | int n => some (int n.natAbs)
  | float x => some (float x.abs)
  | _ => none

/-- The code point of a text of a single character. A stray byte counts as the
replacement character. -/
def codePoint? (bytes : List UInt8) : Option Nat :=
  match Text.scalars bytes with
  | [.char c] => some c.toNat
  | [.stray _] => some 0xFFFD
  | _ => none

/-- The text of one character with a given code point. -/
def character? (x : Value) : Option Value := do
  let n ← small? x
  if n < 0 ∨ 0x10FFFF < n then none
  else
    let c := if n.toNat.isValidChar then Char.ofNat n.toNat else Char.ofNat 0xFFFD
    return text (String.utf8EncodeChar c)

/-- The value of digits in a base, if they are at least one and all of the base. -/
def digitsOf? (base : Nat) (cs : List Char) : Option Int :=
  if cs.isEmpty ∨ !cs.all (Token.isDigitOf base) then none
  else some (Token.digitsValue base cs)

/-- The base that a mark in front of digits stands for. -/
def markedBase? (mark : Char) : Option Nat :=
  if mark == 'x' || mark == 'X' then some 16
  else if mark == 'o' || mark == 'O' then some 8
  else if mark == 'b' || mark == 'B' then some 2
  else none

/-- An unsigned numeral in a base. A mark of the base may stand in front; base zero
leaves the choice to the mark, and refuses zeros in front of other digits. -/
def magnitude? (base : Nat) (cs : List Char) : Option Int :=
  let plain (cs : List Char) := digitsOf? (if base = 0 then 10 else base) cs
  match cs with
  | '0' :: mark :: d :: ds =>
    match markedBase? mark with
    | some marked =>
      if base = 0 ∨ base = marked then digitsOf? marked (d :: ds) else plain cs
    | none =>
      if base = 0 then if (mark :: d :: ds).all (· == '0') then some 0 else none else plain cs
  | ['0', d] => if base = 0 then if d == '0' then some 0 else none else plain cs
  | cs => plain cs

/-- The whole number that a text spells in a base. -/
def parseInt? (base : Nat) (bytes : List UInt8) : Option Int :=
  let (negative, digits) := Numeral.signOf (bytes.map fun b => Char.ofNat b.toNat)
  (magnitude? base digits).map fun n => if negative then -n else n

/-- The base that is asked for, which is ten if none is. -/
def base? : Option Value → Option Nat
  | none => some 10
  | some b => do
    let n ← small? b
    if n = 0 ∨ (2 ≤ n ∧ n ≤ 36) then return n.toNat else none

/-- A value as a whole number. Only a text can have a base. -/
def toInt? (x : Value) (base : Option Value) : Option Value :=
  match x with
  | text bytes => do
    let b ← base? base
    let n ← parseInt? b bytes
    return int n
  | bool b => if base.isSome then none else some (int (if b then 1 else 0))
  | int n => if base.isSome then none else some (int n)
  | float x => if base.isSome then none else (Decimal.truncate? x).map int
  | _ => none

/-- The text of a value, where a text is its own. -/
def toText : Value → Value
  | text bytes => text bytes
  | x => text (render x)

/-- The extreme of values by their keys; of equal ones the first. -/
def extreme? (c : Comparison) (best : Value × Value) : List (Value × Value) → Option Value
  | [] => some best.2
  | candidate :: rest =>
    match compare? c candidate.1 best.1 with
    | none => none
    | some true => extreme? c candidate rest
    | some false => extreme? c best rest

/-- The extreme of some arguments, or of the elements of a single one. -/
def extremeOf? (c : Comparison) (key : Value → Option Value) (args : List Value) :
    Option Value := do
  let xs ← match args with
    | [x] => elements? x
    | xs => some xs
  let keyed ← xs.mapM fun x => do return (← key x, x)
  match keyed with
  | [] => none
  | first :: rest => extreme? c first rest

end Value

open Value

/-- A call with arguments by position only. -/
def Builtin.apply? : Builtin → List Value → Option Value
  | .len, [x] => (length? x).map fun n => .int n
  | .min, args => extremeOf? .lt some args
  | .max, args => extremeOf? .gt some args
  | .abs, [x] => abs? x
  | .int, [x] => toInt? x none
  | .int, [x, base] => toInt? x (some base)
  | .bool, [] => some (.bool false)
  | .bool, [x] => some (.bool x.truth)
  | .str, [x] => some (toText x)
  | .chr, [x] => character? x
  | .ord, [.text bytes] => (codePoint? bytes).map fun n => .int n
  | _, _ => none

/-- A function as the key of an extreme. -/
def keyFunction (f : Value) (x : Value) : Option Value :=
  match f with
  | .builtin f => f.apply? [x]
  | _ => none

/-- A call with some arguments by name. -/
def Builtin.call? (f : Builtin) (args : List Value) (named : List (String × Value)) :
    Option Value :=
  match f, args, named with
  | _, _, [] => f.apply? args
  | .min, _, [("key", key)] => extremeOf? .lt (keyFunction key) args
  | .max, _, [("key", key)] => extremeOf? .gt (keyFunction key) args
  | .int, [x], [("base", base)] => toInt? x (some base)
  | .int, [], [("x", x)] => toInt? x none
  | .int, [], [("x", x), ("base", base)] | .int, [], [("base", base), ("x", x)] =>
    toInt? x (some base)
  | _, _, _ => none

end TapeMachine.Expr
