/-!
# Expressions

The expressions that can be evaluated while a program is assembled, and the
scripts that hold them.
-/

namespace TapeMachine

/-- Operators in front of their operand. -/
inductive UnaryOp where
  | plus
  | minus
  | invert
  deriving DecidableEq, Repr

/-- Comparisons by order. -/
inductive Comparison where
  | eq
  | ne
  | lt
  | le
  | gt
  | ge
  deriving DecidableEq, Repr

/-- Whether a comparison holds of two values in the given order. -/
def Comparison.holds : Comparison → Ordering → Bool
  | .eq, o => o == .eq
  | .ne, o => o != .eq
  | .lt, o => o == .lt
  | .le, o => o != .gt
  | .gt, o => o == .gt
  | .ge, o => o != .lt

/-- Operators between two operands that are both evaluated. -/
inductive BinaryOp where
  | compare (c : Comparison)
  | isIn
  | notIn
  | bitOr
  | bitXor
  | bitAnd
  | shiftLeft
  | shiftRight
  | add
  | sub
  | mul
  | div
  | floorDiv
  | mod
  deriving DecidableEq, Repr

/-- Expressions. -/
inductive Expr where
  | name (s : String)
  | int (n : Int)
  | float (x : Float)
  | text (bytes : List UInt8)
  | unary (op : UnaryOp) (x : Expr)
  | negate (x : Expr)
  | binary (op : BinaryOp) (x y : Expr)
  | both (x y : Expr)
  | either (x y : Expr)
  | choose (condition yes no : Expr)
  | list (xs : List Expr)
  | tuple (xs : List Expr)
  | index (x i : Expr)
  | attribute (x : Expr) (name : String)
  /-- A call, and for every argument the name that it is passed by, if any. -/
  | call (f : Expr) (args : List Expr) (names : List (Option String))

namespace Expr

/-- A line of a script. -/
inductive Statement where
  | assign (target x : Expr)
  /-- An assignment that combines the old value with a new one. -/
  | update (target x : Expr)
  | discard (x : Expr)

end Expr

end TapeMachine
