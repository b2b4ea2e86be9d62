import TapeMachine.Numeral

/-!
# Instruction words

An instruction word holds an operation in its two low decimal digits and the
addressing mode of up to three parameters in the three digits above them.
Digits are taken with division toward zero, so a negative word has digits that
are negative or zero.
-/

namespace TapeMachine

/-- The operations of the machine. -/
inductive Opcode where
  | add
  | mul
  /-- Takes an input value. -/
  | input
  /-- Gives an output value. -/
  | output
  /-- Jumps if its first parameter is not zero. -/
  | jumpTrue
  /-- Jumps if its first parameter is zero. -/
  | jumpFalse
  | lessThan
  | equal
  /-- Moves the relative base. -/
  | adjustBase
  | halt
  deriving DecidableEq, Repr

namespace Opcode

/-- All operations. -/
def all : List Opcode :=
  [add, mul, input, output, jumpTrue, jumpFalse, lessThan, equal, adjustBase, halt]

/-- The number that stands for the operation in an instruction word. -/
def number : Opcode → Word
  | add => 1
  | mul => 2
  | input => 3
  | output => 4
  | jumpTrue => 5
  | jumpFalse => 6
  | lessThan => 7
  | equal => 8
  | adjustBase => 9
  | halt => 99

/-- The operation that a number stands for. -/
def ofNumber? (n : Word) : Option Opcode := all.find? (·.number == n)

/-- The name of the operation in assembly text. -/
def mnemonic : Opcode → String
  | add => "add"
  | mul => "mul"
  | input => "in"
  | output => "out"
  | jumpTrue => "jt"
  | jumpFalse => "jf"
  | lessThan => "lt"
  | equal => "eq"
  | adjustBase => "arb"
  | halt => "hlt"

/-- The operation with a given name. -/
def ofMnemonic? (name : String) : Option Opcode := all.find? (·.mnemonic == name)

/-- How many parameters follow the instruction word. -/
def arity : Opcode → Nat
  | add | mul | lessThan | equal => 3
  | jumpTrue | jumpFalse => 2
  | input | output | adjustBase => 1
  | halt => 0

/-- Whether the last parameter is a destination. -/
def writes : Opcode → Bool
  | add | mul | input | lessThan | equal => true
  | _ => false

/-- The name of any number in the place of an operation. -/
def describe (n : Word) : String :=
  match ofNumber? n with
  | some op => op.mnemonic
  | none => "CodeOp(" ++ Numeral.ofWord n ++ ")"

end Opcode

/-- How a parameter names the value that it stands for. -/
inductive Mode where
  /-- The parameter is an address. -/
  | position
  /-- The parameter is the value. -/
  | immediate
  /-- The parameter is an address counted from the relative base. -/
  | relative
  deriving DecidableEq, Repr

namespace Mode

/-- The digit that stands for the mode in an instruction word. -/
def number : Mode → Word
  | position => 0
  | immediate => 1
  | relative => 2

/-- The mode that a digit stands for. -/
def ofNumber? (n : Word) : Option Mode :=
  if n = 0 then some position
  else if n = 1 then some immediate
  else if n = 2 then some relative
  else none

/-- A short name of the mode. -/
def label : Mode → String
  | position => "pos"
  | immediate => "imm"
  | relative => "rel"

/-- The name of any number in the place of a mode. -/
def describe (n : Word) : String :=
  match ofNumber? n with
  | some mode => mode.label
  | none => "CodeMode(" ++ Numeral.ofWord n ++ ")"

end Mode

namespace Instruction

/-- The operation digits of an instruction word. -/
def opDigits (w : Word) : Word := w % 100

/-- The weight of the mode digit of parameter `n`, counted from one. -/
def modeWeight : Nat → Word
  | 1 => 100
  | 2 => 1000
  | _ => 10000

/-- The mode digit of parameter `n`, counted from one. -/
def modeDigit (w : Word) (n : Nat) : Word := w / modeWeight n % 10

/-- The mode digit of parameter `n`, if there is such a parameter. -/
def modeDigit? (w : Word) (n : Int) : Option Word :=
  if 1 ≤ n ∧ n ≤ 3 then some (modeDigit w n.toNat) else none

/-- Adds the mode digits of parameters `n`, `n + 1`, … to a word. -/
def addModes : Nat → Word → List Word → Word
  | _, w, [] => w
  | n, w, mode :: modes => addModes (n + 1) (w + mode * modeWeight n) modes

/-- The instruction word of an operation number and mode digits, if there are
no more than three of these. -/
def encode? (op : Word) (modes : List Word) : Option Word :=
  if modes.length ≤ 3 then some (addModes 1 op modes) else none

/-- The message for more than three modes. -/
def tooManyModes : String := "too many parameter modes"

/-- The instruction word of an operation with its modes. -/
def encode (op : Opcode) (modes : List Mode) : Word :=
  addModes 1 op.number (modes.map Mode.number)

/-- An instruction word in words: the operation and the mode of each of its
parameters, or a question mark and the number if there is no such operation. -/
def describe (w : Word) : String :=
  match Opcode.ofNumber? (opDigits w) with
  | none => "?" ++ Numeral.ofWord w
  | some op =>
    ".".intercalate
      (op.mnemonic :: (List.range op.arity).map fun n => Mode.describe (modeDigit w (n + 1)))

/-- The instruction set as names for assembly text. -/
def defines : Table String :=
  Table.ofPairs <| [
    ("OP_ADD", Opcode.add.number), ("OP_MUL", Opcode.mul.number),
    ("OP_IN", Opcode.input.number), ("OP_OUT", Opcode.output.number),
    ("OP_JT", Opcode.jumpTrue.number), ("OP_JF", Opcode.jumpFalse.number),
    ("OP_LT", Opcode.lessThan.number), ("OP_EQ", Opcode.equal.number),
    ("OP_ARB", Opcode.adjustBase.number), ("OP_HALT", Opcode.halt.number),
    ("MODE_POSITION", Mode.position.number), ("MODE_IMMEDIATE", Mode.immediate.number),
    ("MODE_RELATIVE", Mode.relative.number)].map fun entry =>
      (entry.1, Numeral.ofWord entry.2)

end Instruction

end TapeMachine
