import TapeMachine.Assembler.Error
import TapeMachine.Numeral
import TapeMachine.Text

/-!
# Literals on a line

Before a line is taken apart, the character literals on it are replaced by their
codes, and then the expressions `$(…)` by their values.
-/

namespace TapeMachine.Literal

/-- The code of the character that a letter stands for behind a backslash. -/
def escapeCode? : Char → Option Nat
  | '\\' => some 92
  | 'n' => some 10
  | 'r' => some 13
  | 't' => some 9
  | _ => none

/-- The code of a character that needs no more than one byte. -/
def plainCode? (c : Char) : Option Nat :=
  if c.toNat < 128 ∧ c ≠ '\\' then some c.toNat else none

/-- A code in decimal, in reverse. -/
def reversedCode (n : Nat) : List Char := (Nat.toDigits 10 n).reverse

/-- Replaces character literals; what is done is kept in reverse. A quoted
character without a code stays as it is, quotes included. -/
def charactersFrom : List Char → List Char → List Char
  | done, [] => done.reverse
  | done, '\'' :: '\\' :: '\'' :: rest => charactersFrom ('\'' :: '\\' :: '\'' :: done) rest
  | done, '\'' :: '\\' :: c :: '\'' :: rest =>
    match escapeCode? c with
    | some n => charactersFrom (reversedCode n ++ done) rest
    | none => charactersFrom ('\'' :: c :: '\\' :: '\'' :: done) rest
  | done, '\'' :: tail@('\'' :: _) => charactersFrom ('\'' :: done) tail
  | done, '\'' :: c :: '\'' :: rest =>
    match plainCode? c with
    | some n => charactersFrom (reversedCode n ++ done) rest
    | none => charactersFrom ('\'' :: c :: '\'' :: done) rest
  | done, c :: rest => charactersFrom (c :: done) rest

/-- A line with codes in place of its character literals. -/
def characters (line : List Char) : List Char := charactersFrom [] line

/-- The name that takes the value of an expression. -/
def resultName : String := "rc"

/-- The script that assigns the value of an expression to the result name. -/
def assignment (expr : List Char) : List Char := resultName.toList ++ '=' :: expr ++ ['\n']

/-- The value of an expression, which has to be a whole number and fit into a
word. There is none if the script turns out to assign nothing. -/
def wordOf (script : Script) (given : String → Option Int) (expr : List Char) :
    Except AssemblyError Word :=
  match script.run (assignment expr) given with
  | .error e => .error (.expression e)
  | .ok assigned =>
    match assigned resultName with
    | some (.int n) =>
      if -(Word.half : Int) ≤ n ∧ n < Word.half then .ok (Int64.ofInt n)
      else .error (.notWord (String.ofList expr))
    | _ => .error (.notWord (String.ofList expr))

/-- The expression at the front of what follows a dollar sign, and the text behind
it. The expression reaches to the last closing bracket. -/
def bracketed? : List Char → Option (List Char × List Char)
  | '(' :: cs =>
    let (behind, inside) := cs.reverse.span (· != ')')
    match inside with
    | _ :: inside => some (inside.reverse, behind.reverse)
    | [] => none
  | _ => none

/-- Replaces expressions in the pieces of a line that dollar signs start, given their
values. Every expression is evaluated, and the last one that fails decides the error. -/
def expressionsIn (value : List Char → Except AssemblyError Word) :
    List (List Char) → List Char × Option AssemblyError
  | [] => ([], none)
  | piece :: pieces =>
    let (rest, error) := expressionsIn value pieces
    match bracketed? piece with
    | none => ('$' :: piece ++ rest, error)
    | some (expr, behind) =>
      match value expr with
      | .ok w => ((Numeral.ofWord w).toList ++ behind ++ rest, error)
      | .error e => (behind ++ rest, some (error.getD e))

/-- A line with values in place of its expressions. -/
def expressions (value : List Char → Except AssemblyError Word) (line : List Char) :
    Except AssemblyError (List Char) :=
  match Text.pieces (· == '$') line with
  | [] => .ok []
  | first :: pieces =>
    match expressionsIn value pieces with
    | (_, some e) => .error e
    | (rest, none) => .ok (first ++ rest)

end TapeMachine.Literal
