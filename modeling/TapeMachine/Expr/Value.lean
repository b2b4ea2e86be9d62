import TapeMachine.Decimal.Shortest
import TapeMachine.Expr.Basic
import TapeMachine.Numeral
import TapeMachine.Text.Quoted

/-!
# Values of expressions

Whole numbers are unbounded, and truth values are not numbers. Texts are
sequences of bytes, which index and length count. Values of different kinds
differ, except that numbers compare across kinds; only some kinds are ordered.
-/

namespace TapeMachine.Expr

/-- Functions that every script can use. -/
inductive Builtin where
  | len
  | min
  | max
  | abs
  | int
  | bool
  | str
  | chr
  | ord
  /-- A known name that cannot be called here. -/
  | reserved (name : String)
  deriving DecidableEq, Repr

/-- The values of expressions. -/
inductive Value where
  | nothing
  | bool (b : Bool)
  | int (n : Int)
  | float (x : Float)
  | text (bytes : List UInt8)
  | list (xs : List Value)
  | tuple (xs : List Value)
  | builtin (f : Builtin)

namespace Builtin

/-- The name of a function. -/
def name : Builtin → String
  | len => "len"
  | min => "min"
  | max => "max"
  | abs => "abs"
  | int => "int"
  | bool => "bool"
  | str => "str"
  | chr => "chr"
  | ord => "ord"
  | reserved s => s

/-- The functions that can be called. -/
def callable : List Builtin := [len, min, max, abs, int, bool, str, chr, ord]

/-- Names of functions that are known but cannot be called here. -/
def reservedNames : List String :=
  ["all", "any", "bytes", "dict", "dir", "enumerate", "fail", "float", "getattr", "hasattr", "hash",
    "list", "print", "range", "repr", "reversed", "sorted", "tuple", "type", "zip"]

/-- The function with a given name. -/
def ofName? (s : String) : Option Builtin :=
  match callable.find? (·.name == s) with
  | some f => some f
  | none => if reservedNames.contains s then some (reserved s) else none

end Builtin

namespace Value

/-- The value that every script knows under a name. -/
def universal? (s : String) : Option Value :=
  if s == "None" then some nothing
  else if s == "True" then some (bool true)
  else if s == "False" then some (bool false)
  else (Builtin.ofName? s).map builtin

/-- Whether a value counts as true. -/
def truth : Value → Bool
  | nothing => false
  | bool b => b
  | int n => n != 0
  | float x => x != 0
  | text bytes => !bytes.isEmpty
  | list xs => !xs.isEmpty
  | tuple xs => !xs.isEmpty
  | builtin _ => true

/-- The bytes of a text by order. -/
def compareBytes : List UInt8 → List UInt8 → Ordering
  | [], [] => .eq
  | [], _ :: _ => .lt
  | _ :: _, [] => .gt
  | a :: as, b :: bs => (compare a b).then (compareBytes as bs)

/-- Compares two sequences, given how elements compare. The first elements that
differ decide, and then the lengths. -/
def compareSequences (element : Comparison → Value → Value → Option Bool) (c : Comparison) :
    List Value → List Value → Option Bool
  | x :: xs, y :: ys =>
    match element .eq x y with
    | none => none
    | some true => compareSequences element c xs ys
    | some false =>
      match c with
      | .eq => some false
      | .ne => some true
      | _ => element c x y
  | [], [] => some (c.holds .eq)
  | [], _ :: _ => some (c.holds .lt)
  | _ :: _, [] => some (c.holds .gt)

/-- Sequences of different lengths differ, whatever their elements are. -/
def compareLists (element : Comparison → Value → Value → Option Bool) (c : Comparison)
    (xs ys : List Value) : Option Bool :=
  if xs.length ≠ ys.length ∧ c = .eq then some false
  else if xs.length ≠ ys.length ∧ c = .ne then some true
  else compareSequences element c xs ys

/-- The answer for values that have no order. -/
def unordered (equal : Bool) : Comparison → Option Bool
  | .eq => some equal
  | .ne => some (!equal)
  | _ => none

/-- Compares two values; there is no answer for values without an order, or for
values nested deeper than `depth`. -/
def compareTo : (depth : Nat) → Comparison → Value → Value → Option Bool
  | 0, _, _, _ => none
  | depth + 1, c, x, y =>
    match x, y with
    | int a, int b => some (c.holds (compare a b))
    | float a, float b => some (c.holds (Decimal.compareFloats a b))
    | int a, float b => some (c.holds (Decimal.compareInt a b))
    | float a, int b => some (c.holds (Decimal.compareInt b a).swap)
    | bool a, bool b => some (c.holds (compare a b))
    | text a, text b => some (c.holds (compareBytes a b))
    | list xs, list ys => compareLists (compareTo depth) c xs ys
    | tuple xs, tuple ys => compareLists (compareTo depth) c xs ys
    | nothing, nothing => unordered true c
    | builtin f, builtin g => unordered (f == g) c
    | _, _ => unordered false c

/-- How deep compared values may be nested. -/
def compareDepth : Nat := 10

/-- Compares two values. -/
def compare? (c : Comparison) (x y : Value) : Option Bool := compareTo compareDepth c x y

/-- Whether a value is among the elements of a sequence. -/
def member? (x : Value) : List Value → Option Bool
  | [] => some false
  | y :: ys =>
    match compare? .eq y x with
    | none => none
    | some true => some true
    | some false => member? x ys

/-! ## Text of values -/

/-- The bytes of a text without characters beyond the first 128. -/
def ofAscii (s : String) : List UInt8 := s.toList.map fun c => c.toNat.toUInt8

mutual

/-- The text of a value, with texts in quotes. -/
def render : Value → List UInt8
  | nothing => ofAscii "None"
  | bool b => ofAscii (if b then "True" else "False")
  | int n => ofAscii (Numeral.ofInt n)
  | float x => ofAscii (String.ofList (Decimal.text x))
  | text bytes => Text.utf8Bytes (Text.quoteBytes bytes)
  | list xs => ofAscii "[" ++ renderAll xs ++ ofAscii "]"
  | tuple xs =>
    let inside := renderAll xs
    ofAscii "(" ++ inside ++ ofAscii (if xs.length = 1 then ",)" else ")")
  | builtin f => ofAscii ("<built-in function " ++ f.name ++ ">")

/-- The texts of several values between commas. -/
def renderAll : List Value → List UInt8
  | [] => []
  | [x] => render x
  | x :: xs => render x ++ ofAscii ", " ++ renderAll xs

end

end Value

end TapeMachine.Expr
