import TapeMachine.Message
import TapeMachine.Script

/-!
# Assembly errors

What can be wrong with an assembly source, and where.
-/

namespace TapeMachine

/-- Errors of assembly sources. -/
inductive AssemblyError where
  /-- An equate does not have a name and a text. -/
  | equateSyntax
  | equateDuplicate
  | labelDuplicate
  | labelMissing (label : String)
  /-- A macro has no name, or is called with the wrong number of arguments. -/
  | macroSyntax
  | macroNesting
  | macroDuplicate
  /-- A macro is not closed. -/
  | macroOpen
  /-- There is no macro to close. -/
  | macroClosed
  /-- Macros call each other deeper than this library follows them. The language itself
  sets no bound. -/
  | macroDepth
  | extraOperands
  | valueMissing
  | targetInvalid
  | instructionInvalid
  | notNumber (text : String)
  | notCharacter (text : String)
  /-- The value of an expression is no word. -/
  | notWord (expr : String)
  /-- The script of an expression fails. -/
  | expression (e : Script.Error)
  | lineTooLong
  | readFailed (text : String)
  /-- An error on a line of a macro. -/
  | inMacro (name : String) (line : Nat) (cause : AssemblyError)
  /-- An error on a line of the source. -/
  | atLine (line : Nat) (text : String) (cause : AssemblyError)
  deriving DecidableEq, Repr

/-- The text of an assembly error. -/
def AssemblyError.message : AssemblyError → String
  | equateSyntax => Message.fill ".equ syntax" []
  | equateDuplicate => Message.fill ".equ duplicated" []
  | labelDuplicate => Message.fill "label duplicated" []
  | labelMissing label => Message.fill "label %v missing" [.text label]
  | macroSyntax => Message.fill ".macro syntax" []
  | macroNesting => Message.fill ".macro in .macro prohibited" []
  | macroDuplicate => Message.fill ".macro duplicated" []
  | macroOpen => Message.fill ".macro without .endm" []
  | macroClosed => Message.fill ".endm without .macro" []
  | macroDepth => Message.fill ".macro nested too deep" []
  | extraOperands => Message.fill "excessive arguments" []
  | valueMissing => Message.fill "value missing" []
  | targetInvalid => Message.fill "target invalid" []
  | instructionInvalid => Message.fill "instruction invalid" []
  | notNumber text => Message.fill "'%v' is not a number" [.text text]
  | notCharacter text => Message.fill "'%v' is not a character" [.text text]
  | notWord expr => Message.fill "$(%v) is not a valid expression" [.text expr]
  | expression e => e.message
  | lineTooLong => "bufio.Scanner: token too long"
  | readFailed text => text
  | inMacro name line cause =>
    Message.fill "macro %v line %v %v" [.text name, .number line, .text cause.message]
  | atLine line text cause =>
    Message.fill "line %d '%v' %v" [.number line, .text text, .text cause.message]

end TapeMachine
