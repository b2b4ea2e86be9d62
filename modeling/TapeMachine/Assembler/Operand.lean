import TapeMachine.Assembler.Error
import TapeMachine.Instruction
import TapeMachine.Listing

/-!
# Operands and instructions

An operand is a term in one of three forms: `v` names the cell at `v`, `#v` is
the value `v` itself, and `rb+v` or `rb-v` name the cell at that distance from the
relative base. A term is a number or a label.
-/

namespace TapeMachine

namespace Operand

/-- Whether a character can start a label in a term. -/
def startsLabel (c : Char) : Bool := c.isAlpha || c == '_'

/-- Whether a word can be a label in a term. -/
def isLabel (word : String) : Bool :=
  match word.toList with
  | [] => false
  | c :: cs => startsLabel c && cs.all fun c => startsLabel c || c.isDigit || c == '.'

/-- A word without the quotes at its two ends. -/
def unquoted (word : List Char) : List Char :=
  ((word.dropWhile (· == '\'')).reverse.dropWhile (· == '\'')).reverse

/-- What is wrong with a word that is neither a number nor a label. -/
def complaint (word : String) : AssemblyError :=
  match word.toList with
  | '\'' :: _ => .notCharacter (String.ofList (unquoted word.toList))
  | _ => .notNumber word

/-- A word as a term. A label counts from zero, except that one made of an
underscore and digits beyond the range of words counts from the nearest word. -/
def term (word : String) : Except AssemblyError Term :=
  match Numeral.readAnnounced word.toList with
  | .value w => .ok ⟨w, none⟩
  | .overflow w => if isLabel word then .ok ⟨w, some word⟩ else .error (complaint word)
  | .malformed => if isLabel word then .ok ⟨0, some word⟩ else .error (complaint word)

/-- A word as a term, where the name of an equate stands for its text. -/
def resolve (equates : Table String) (word : String) : Except AssemblyError Term :=
  term ((equates[word]?).getD word)

/-- A term with the opposite value, which a label cannot have. -/
def opposite (t : Term) : Except AssemblyError Term :=
  match t.label with
  | none => .ok ⟨-t.value, none⟩
  | some _ => .error .targetInvalid

/-- A word as an operand. -/
def read (equates : Table String) (word : String) : Except AssemblyError (Mode × Term) :=
  match word.toList with
  | '#' :: cs => do
    let t ← resolve equates (String.ofList cs)
    return (.immediate, t)
  | ['r', 'b'] => return (.relative, ⟨0, none⟩)
  | 'r' :: 'b' :: '+' :: cs => do
    let t ← resolve equates (String.ofList cs)
    return (.relative, t)
  | 'r' :: 'b' :: '-' :: cs => do
    let t ← resolve equates (String.ofList cs)
    let t ← opposite t
    return (.relative, t)
  | _ => do
    let t ← resolve equates word
    return (.position, t)

end Operand

namespace Instruction

/-- The instruction that other spellings stand for. -/
def unalias : List String → List String
  | ["halt"] => ["hlt"]
  | "jnz" :: args => "jt" :: args
  | "jz" :: args => "jf" :: args
  | ["jump", target] => ["jt", "#1", target]
  | ["mov", source, destination] => ["add", source, "#0", destination]
  | words => words

/-- The terms of a data line. -/
def assembleData (equates : Table String) (args : List String) :
    Except AssemblyError (List Term) :=
  if args.isEmpty then .error .valueMissing else args.mapM (Operand.resolve equates)

/-- The terms of an operation with its operands: first the instruction word. -/
def assembleOperation (equates : Table String) (op : Opcode) (args : List String) :
    Except AssemblyError (List Term) := do
  if args.length < op.arity then throw .valueMissing
  if op.arity < args.length then throw .extraOperands
  let operands ← args.mapM (Operand.read equates)
  let modes := operands.map Prod.fst
  if op.writes && modes.getLast? == some .immediate then throw .targetInvalid
  return ⟨encode op modes, none⟩ :: operands.map Prod.snd

/-- The terms of an instruction or data line. -/
def assemble (equates : Table String) (words : List String) : Except AssemblyError (List Term) :=
  match unalias words with
  | [] => .ok []
  | ".data" :: args => assembleData equates args
  | name :: args =>
    match Opcode.ofMnemonic? name with
    | none => .error .instructionInvalid
    | some op => assembleOperation equates op args

end Instruction

end TapeMachine
