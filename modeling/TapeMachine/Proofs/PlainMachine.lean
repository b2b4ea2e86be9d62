import TapeMachine.Machine
import TapeMachine.Proofs.TapeMemory

/-!
# The plain machine

The plain machine says what an instruction means with no regard to how memory is
kept. Its memory is a function, its arithmetic is that of the integers, reduced
to words, and it executes an instruction parameter by parameter, so that the
order of its steps is the order of its effects. The machine over a tape keeps its
memory in parts and examines all parameters before it applies any effect.
-/

namespace TapeMachine

namespace Plain

/-- The word with a given value modulo `2 ^ 64`. -/
def wrap (n : Int) : Word := Int64.ofInt n

/-- The address of a cell. -/
abbrev Address := Fin (2 ^ 63)

/-- A memory that has every cell. -/
abbrev Memory := Address → Word

/-- An image, followed by zeros. -/
def Memory.ofImage (image : Array Word) : Memory := fun a => image.getD a 0

/-- A memory with one cell changed. -/
def Memory.set (memory : Memory) (a : Address) (value : Word) : Memory :=
  fun b => if b = a then value else memory b

/-- A plain machine. -/
structure State where
  /-- What a reset brings back. -/
  image : Memory
  memory : Memory
  ip : Word := 0
  base : Word := 0
  active : Bool := false
  /-- The inputs that were not taken. -/
  inputs : List Word := []

/-- What executing does: it changes the machine step by step, and may fail. What
it changed by then stays. -/
abbrev Exec := EStateM Cause State

/-- The operation digits of a word, which have its sign. -/
def opDigits (word : Word) : Int := word.toInt.tmod 100

/-- The mode digit of parameter `n`, which has the sign of the word. -/
def modeDigit (word : Word) (n : Nat) : Int := (word.toInt.tdiv (10 ^ (n + 1))).tmod 10

/-- The cell at a word as address. -/
def address (w : Word) : Exec Address :=
  if h : 0 ≤ w.toInt then
    return ⟨w.toInt.toNat, by have := w.toInt_lt; omega⟩
  else throw .negativeAddress

/-- The value of the cell at a word as address. -/
def peek (w : Word) : Exec Word := do
  let a ← address w
  return (← get).memory a

/-- Passes parameter `n` of the instruction at `start`, and returns its place. -/
def pass (start : Word) (n : Nat) : Exec Word := do
  modify fun s => { s with ip := wrap (start.toInt + n + 1) }
  return wrap (start.toInt + n)

/-- The address at a distance from the relative base. -/
def fromBase (offset : Word) : Exec Word := do
  return wrap ((← get).base.toInt + offset.toInt)

/-- The address that parameter `n` stands for. -/
def effective (start word : Word) (n : Nat) : Exec Word := do
  let place ← pass start n
  match modeDigit word n with
  | 0 => peek place
  | 1 => return place
  | 2 => do
    let offset ← peek place
    fromBase offset
  | digit => throw (.unknownMode n (wrap digit))

/-- The value of parameter `n`. -/
def operand (start word : Word) (n : Nat) : Exec Word := do
  let addr ← effective start word n
  peek addr

/-- Stores a value where parameter `n` says, which must not be given by value. -/
def store (start word : Word) (n : Nat) (value : Word) : Exec Unit := do
  if modeDigit word n = 1 then
    let _ ← pass start n
    throw .immediateDestination
  else
    let addr ← effective start word n
    let a ← address addr
    modify fun s => { s with memory := s.memory.set a value }

/-- Takes an input. -/
def takeInput : Exec Word := do
  match (← get).inputs with
  | [] => throw .inputExhausted
  | value :: rest =>
    modify fun s => { s with inputs := rest }
    return value

/-- What an instruction reports. -/
structure Report where
  output : Bool := false
  halted : Bool := false
  value : Word := 0
  deriving DecidableEq, Repr

/-- Stores what `f` makes of two operands. -/
def combine (start word : Word) (f : Int → Int → Word) : Exec Report := do
  let x ← operand start word 1
  let y ← operand start word 2
  store start word 3 (f x.toInt y.toInt)
  return {}

/-- Jumps to the second operand if `taken` holds of the first. -/
def jump (start word : Word) (taken : Int → Bool) : Exec Report := do
  let x ← operand start word 1
  let target ← operand start word 2
  modify fun s => { s with ip := if taken x.toInt then target else s.ip }
  return {}

/-- Does what the instruction `word` at `start` says. -/
def operate (start word : Word) : Exec Report := do
  match opDigits word with
  | 1 => combine start word fun x y => wrap (x + y)
  | 2 => combine start word fun x y => wrap (x * y)
  | 3 => do
    let value ← takeInput
    store start word 1 value
    return {}
  | 4 => do
    let value ← operand start word 1
    return { output := true, value }
  | 5 => jump start word (· ≠ 0)
  | 6 => jump start word (· = 0)
  | 7 => combine start word fun x y => if x < y then 1 else 0
  | 8 => combine start word fun x y => if x = y then 1 else 0
  | 9 => do
    let offset ← operand start word 1
    modify fun s => { s with base := wrap (s.base.toInt + offset.toInt) }
    return {}
  | 99 => do
    modify fun s => { s with active := false }
    return { halted := true }
  | op => throw (.unknownOpcode (wrap op))

/-- Executes the instruction `word` at `start`. -/
def execute (start word : Word) : Exec Report := do
  modify fun s => { s with ip := wrap (start.toInt + 1) }
  operate start word

/-- How executing the instruction `word` at `start` ends. A failure makes the machine
inactive. -/
def conclude (start word : Word) :
    EStateM.Result Cause State Report → Except MachineError Report × State
  | .ok report s => (.ok report, s)
  | .error cause s => (.error (.fault ⟨start, word, cause⟩), { s with active := false })

namespace State

/-- A plain machine for an image. It is inactive until it is reset. -/
def ofImage (image : Array Word) : State :=
  { image := Memory.ofImage image, memory := Memory.ofImage image }

/-- Executes the instruction at the instruction pointer. -/
def step (s : State) : Except MachineError Report × State :=
  match (peek s.ip).run s with
  | .error cause s => conclude s.ip 0 (.error cause s)
  | .ok word s => conclude s.ip word ((execute s.ip word).run s)

/-- Executes one instruction on a list of inputs. -/
def tick (s : State) (inputs : List Word) : Except MachineError Report × State :=
  if s.active then step { s with inputs } else (.error .notActive, { s with inputs })

/-- Starts over. -/
def reset (s : State) : State :=
  { s with memory := s.image, ip := 0, base := 0, active := true }

/-- Makes the machine inactive and changes nothing else. -/
def stop (s : State) : State := { s with active := false }

/-- Writes a cell from outside. A refused write changes nothing. -/
def write (s : State) (addr value : Word) : State :=
  match (address addr).run s with
  | .ok a s => { s with memory := s.memory.set a value }
  | .error _ s => s

end State

end Plain

end TapeMachine
