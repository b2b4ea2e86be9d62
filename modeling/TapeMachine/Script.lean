/-!
# Script languages

The assembler evaluates expressions with the help of a script language that it does not
define itself. It hands over a text and what the names in it stand for, and takes the
values of the names that the script assigns. Nothing else is assumed of the language.
-/

namespace TapeMachine

namespace Script

/-- A value of a script, as far as the assembler tells values apart. Whole numbers have no
bound. -/
inductive Value where
  | int (n : Int)
  /-- A value that is no whole number. -/
  | other
  deriving DecidableEq, Repr

/-- At which point a script fails. -/
inductive Stage where
  /-- The text does not scan or parse. -/
  | malformed
  /-- The names in the script do not resolve. -/
  | unresolved
  /-- The evaluation fails. -/
  | failed
  deriving DecidableEq, Repr

/-- Why a script gives no values. -/
structure Error where
  stage : Stage
  message : String
  deriving DecidableEq, Repr

end Script

/-- A script language. -/
structure Script where
  /-- Runs a text, given the numbers that names stand for. Gives the values of the names
  that the script assigns. -/
  run : (text : List Char) → (given : String → Option Int) →
    Except Script.Error (String → Option Script.Value)

/-- The language without any script. -/
def Script.empty : Script where
  run _ _ := .error ⟨.malformed, "no script language"⟩

end TapeMachine
