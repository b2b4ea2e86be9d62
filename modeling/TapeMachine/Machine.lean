import TapeMachine.Instruction
import TapeMachine.Message
import TapeMachine.Tape

/-!
# Machine

A machine executes the instructions on its tape one by one. Executing an
instruction has two parts: its parameters are examined from left to right, which
may fail and changes nothing, and then its effect is applied, which cannot fail.
A failure stops the machine, with the instruction pointer past the parameters
that were examined.
-/

namespace TapeMachine

/-- What can be wrong with an instruction. -/
inductive Cause where
  | inputExhausted
  | negativeAddress
  | unknownOpcode (op : Word)
  /-- Parameter `param`, counted from one, has a digit that is no mode. -/
  | unknownMode (param : Nat) (mode : Word)
  /-- A destination is given by value. -/
  | immediateDestination
  deriving DecidableEq, Repr

/-- The text of a cause. -/
def Cause.message : Cause → String
  | inputExhausted => Message.fill "input exhausted" []
  | negativeAddress => Message.fill "negative address" []
  | unknownOpcode op => Message.fill "bad opcode %v" [.number op.toInt]
  | unknownMode param mode =>
    Message.fill "parameter %d: bad mode %v" [.number param, .number mode.toInt]
  | immediateDestination => Message.fill "immediate mode is invalid for writing" []

/-- A failed instruction: where it stands, its word, and what is wrong. -/
structure Fault where
  ip : Word
  word : Word
  cause : Cause
  deriving DecidableEq, Repr

/-- The text of a fault. -/
def Fault.message (f : Fault) : String :=
  Message.fill "fault at %v [%v] %v"
    [.number f.ip.toInt, .text (Instruction.describe f.word), .text f.cause.message]

/-- Why a machine does not run. -/
inductive MachineError where
  | alreadyActive
  | notActive
  | fault (f : Fault)
  deriving DecidableEq, Repr

/-- The text of a machine error. -/
def MachineError.message : MachineError → String
  | alreadyActive => Message.fill "machine already active" []
  | notActive => Message.fill "machine not active" []
  | fault f => f.message

/-- A machine with its memory and registers. -/
structure Machine where
  /-- The name under which the machine reports. -/
  name : String
  /-- Whether the machine reports what it does. -/
  verbose : Bool := false
  tape : Tape
  /-- The address of the next instruction. -/
  ip : Word := 0
  /-- The relative base. -/
  base : Word := 0
  /-- How many instructions were executed since the last reset. This is a number
  without a bound, and not a word that would be negative from `2 ^ 63` on. -/
  ticks : Nat := 0
  /-- Whether the machine may execute. -/
  active : Bool := false

namespace Machine

/-- A machine for an image. It is inactive until it is reset. -/
def ofImage (name : String) (image : Array Word) : Machine :=
  { name, tape := Tape.ofImage image }

/-- Starts over: the tape holds the image, and all registers are zero. -/
def reset (m : Machine) : Machine :=
  { m with tape := m.tape.reset, ip := 0, base := 0, ticks := 0, active := true }

/-- Makes the machine inactive and changes nothing else. -/
def stop (m : Machine) : Machine := { m with active := false }

/-- Why an instruction fails, and how many of its parameters were examined by
then, the bad one included. -/
structure Failure where
  cause : Cause
  examined : Nat
  deriving DecidableEq, Repr

/-- The address that parameter `n` of the instruction `word` stands for. -/
def address (m : Machine) (word : Word) (n : Nat) : Except Cause Word :=
  let slot := m.ip + Int64.ofNat n
  let digit := Instruction.modeDigit word n
  match Mode.ofNumber? digit with
  | none => .error (.unknownMode n digit)
  | some .immediate => .ok slot
  | some .position =>
    match m.tape.read? slot with
    | none => .error .negativeAddress
    | some addr => .ok addr
  | some .relative =>
    match m.tape.read? slot with
    | none => .error .negativeAddress
    | some offset => .ok (offset + m.base)

/-- The value of parameter `n`. -/
def load (m : Machine) (word : Word) (n : Nat) : Except Failure Word :=
  match m.address word n with
  | .error cause => .error ⟨cause, n⟩
  | .ok addr =>
    match m.tape.read? addr with
    | none => .error ⟨.negativeAddress, n⟩
    | some value => .ok value

/-- The cell that parameter `n` names as a destination. -/
def destination (m : Machine) (word : Word) (n : Nat) : Except Failure Nat :=
  if Instruction.modeDigit word n = Mode.immediate.number then
    .error ⟨.immediateDestination, n⟩
  else
    match m.address word n with
    | .error cause => .error ⟨cause, n⟩
    | .ok addr =>
      match addr.address? with
      | none => .error ⟨.negativeAddress, n⟩
      | some a => .ok a

/-- What an instruction does, once its parameters are known to be good. -/
inductive Effect where
  | store (a : Nat) (value : Word)
  | emit (value : Word)
  | jump (target : Word)
  | proceed
  | rebase (offset : Word)
  | halt
  deriving DecidableEq, Repr

/-- Examines two operands and a destination for the result of `f`. -/
def combine (m : Machine) (word : Word) (f : Word → Word → Word) : Except Failure Effect := do
  let x ← m.load word 1
  let y ← m.load word 2
  let a ← m.destination word 3
  return .store a (f x y)

/-- Examines a condition and a target, and jumps if `taken` holds. -/
def branch (m : Machine) (word : Word) (taken : Word → Bool) : Except Failure Effect := do
  let x ← m.load word 1
  let target ← m.load word 2
  return if taken x then .jump target else .proceed

/-- What operation `op` of the instruction `word` does. -/
def effect (m : Machine) (word : Word) (inputs : List Word) : Opcode → Except Failure Effect
  | .add => m.combine word (· + ·)
  | .mul => m.combine word (· * ·)
  | .lessThan => m.combine word fun x y => if x < y then 1 else 0
  | .equal => m.combine word fun x y => if x = y then 1 else 0
  | .input =>
    match inputs with
    | [] => .error ⟨.inputExhausted, 0⟩
    | value :: _ => do
      let a ← m.destination word 1
      return .store a value
  | .output => do
    let value ← m.load word 1
    return .emit value
  | .jumpTrue => m.branch word (· != 0)
  | .jumpFalse => m.branch word (· == 0)
  | .adjustBase => do
    let offset ← m.load word 1
    return .rebase offset
  | .halt => return .halt

/-- What a successful instruction reports. -/
inductive Event where
  | ran
  | output (value : Word)
  | halted
  deriving DecidableEq, Repr

/-- Applies an effect and moves on to `next`. -/
def apply (m : Machine) (next : Word) (e : Effect) : Machine × Event :=
  match m with
  | ⟨name, verbose, tape, _, base, ticks, active⟩ =>
    match e with
    | .store a value => (⟨name, verbose, tape.set a value, next, base, ticks + 1, active⟩, .ran)
    | .emit value => (⟨name, verbose, tape, next, base, ticks + 1, active⟩, .output value)
    | .jump target => (⟨name, verbose, tape, target, base, ticks + 1, active⟩, .ran)
    | .proceed => (⟨name, verbose, tape, next, base, ticks + 1, active⟩, .ran)
    | .rebase offset => (⟨name, verbose, tape, next, base + offset, ticks + 1, active⟩, .ran)
    | .halt => (⟨name, verbose, tape, next, base, ticks + 1, false⟩, .halted)

/-- The inputs left after an operation, whether it succeeded or not. -/
def inputsAfter : Opcode → List Word → List Word
  | .input, inputs => inputs.drop 1
  | _, inputs => inputs

/-- How one instruction went. -/
structure Tick where
  result : Except MachineError Event
  machine : Machine
  /-- The inputs that were not taken. -/
  inputs : List Word

/-- The outcome of an instruction that fails: the machine is inactive, and its
instruction pointer is past what was examined. -/
def faulted (m : Machine) (word : Word) (failure : Failure) (inputs : List Word) : Tick :=
  { result := .error (.fault ⟨m.ip, word, failure.cause⟩)
    machine := { m with active := false, ip := m.ip + 1 + Int64.ofNat failure.examined }
    inputs }

/-- Executes the instruction `word`, which stands at the instruction pointer. -/
def execute (m : Machine) (word : Word) (inputs : List Word) : Tick :=
  let op := Instruction.opDigits word
  match Opcode.ofNumber? op with
  | none => m.faulted word ⟨.unknownOpcode op, 0⟩ inputs
  | some op =>
    let left := inputsAfter op inputs
    match m.effect word inputs op with
    | .error failure => m.faulted word failure left
    | .ok e =>
      let next := m.ip + 1 + Int64.ofNat op.arity
      let (machine, event) := m.apply next e
      ⟨.ok event, machine, left⟩

/-- Executes one instruction. Input is taken from the front of `inputs`. -/
def tick (m : Machine) (inputs : List Word) : Tick :=
  if m.active then
    match m.tape.read? m.ip with
    | none => ⟨.error (.fault ⟨m.ip, 0, .negativeAddress⟩), { m with active := false }, inputs⟩
    | some word => m.execute word inputs
  else ⟨.error .notActive, m, inputs⟩

/-- The registers of a machine, one to a line. -/
def dump (m : Machine) : String :=
  let code :=
    match m.tape.read? m.ip with
    | none => "----"
    | some word => Numeral.ofWord word ++ " " ++ Instruction.describe word
  String.join [
    "  name: ", m.name, "\n",
    "active: ", if m.active then "true" else "false", "\n",
    "    ip: ", Numeral.ofWord m.ip, "\n",
    "    rb: ", Numeral.ofWord m.base, "\n",
    "  code: ", code, "\n",
    " ticks: ", Nat.repr m.ticks, "\n"]

end Machine

end TapeMachine
