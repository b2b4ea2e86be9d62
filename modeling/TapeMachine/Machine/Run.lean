import TapeMachine.Machine

/-!
# Runs

A run executes instructions until the next output, a halt or a failure. Since a
program may run forever, a run takes a bound on the number of instructions; it
gives no answer only if the bound is too small.
-/

namespace TapeMachine.Machine

/-- How a run ended: with an output value, with none on a halt, or in failure. -/
structure Stop where
  result : Except MachineError (Option Word)
  machine : Machine
  /-- The inputs that were not taken. -/
  inputs : List Word

/-- Executes at most `bound` instructions up to the next output. -/
def resume : (bound : Nat) → Machine → List Word → Option Stop
  | 0, _, _ => none
  | bound + 1, m, inputs =>
    match m.tick inputs with
    | ⟨.ok .ran, machine, left⟩ => resume bound machine left
    | ⟨.ok (.output value), machine, left⟩ => some ⟨.ok (some value), machine, left⟩
    | ⟨.ok .halted, machine, left⟩ => some ⟨.ok none, machine, left⟩
    | ⟨.error e, machine, left⟩ => some ⟨.error e, machine, left⟩

/-- Resets the machine and runs it to its first output. -/
def start (bound : Nat) (m : Machine) (inputs : List Word) : Option Stop :=
  m.reset.resume bound inputs

/-- Like `start`, but refuses a machine that is active unless `force` is set. -/
def run (bound : Nat) (m : Machine) (inputs : List Word) (force : Bool) : Option Stop :=
  if m.active && !force then some ⟨.error .alreadyActive, m, inputs⟩ else m.start bound inputs

/-- The output values of a run of runs, and the failure that ended it, if any. -/
structure Outputs where
  values : List Word
  error : Option MachineError
  machine : Machine

/-- Resumes the machine until it halts or fails, every time with the same
inputs. With a limit, it stops after that many values, but not before one. -/
def outputs : (bound : Nat) → (limit : Option Nat) → Machine → List Word → Option Outputs
  | 0, _, _, _ => none
  | bound + 1, limit, m, inputs =>
    match m.resume (bound + 1) inputs with
    | none => none
    | some ⟨.error e, machine, _⟩ => some ⟨[], some e, machine⟩
    | some ⟨.ok none, machine, _⟩ => some ⟨[], none, machine⟩
    | some ⟨.ok (some value), machine, _⟩ =>
      if limit.any (· ≤ 1) then some ⟨[value], none, machine⟩
      else
        (outputs bound (limit.map (· - 1)) machine inputs).map fun rest =>
          { rest with values := value :: rest.values }

/-- The instruction pointer before an instruction, and how this went. -/
abbrev Trace := List (Word × Except MachineError Event)

/-- Executes up to `n` instructions on one list of inputs, and stops early when
the machine is no longer active. -/
def trace : (n : Nat) → Machine → List Word → Trace × Machine × List Word
  | 0, m, inputs => ([], m, inputs)
  | n + 1, m, inputs =>
    let ip := m.ip
    match m.tick inputs with
    | ⟨.ok event, machine, left⟩ =>
      if machine.active then
        let (rest, last) := trace n machine left
        ((ip, .ok event) :: rest, last)
      else ([(ip, .ok event)], machine, left)
    | ⟨.error e, machine, left⟩ => ([(ip, .error e)], machine, left)

/-! ## Reports

A verbose machine reports each instruction before it executes it. The reports
are functions of the run and not part of it.
-/

/-- What a verbose machine reports about the instruction `word`. -/
def executeReport (m : Machine) (word : Word) : List String :=
  if m.verbose then
    let line := m.name ++ ": " ++ Numeral.ofWord m.ip ++ ": " ++ Instruction.describe word
    if Opcode.ofNumber? (Instruction.opDigits word) = some .halt then
      [line, m.name ++ ": halt"]
    else [line]
  else []

/-- What a verbose machine reports about its next instruction. -/
def tickReport (m : Machine) : List String :=
  if m.active then
    match m.tape.read? m.ip with
    | none => []
    | some word => m.executeReport word
  else []

/-- What a verbose machine reports when it is reset. -/
def resetReport (m : Machine) : List String :=
  if m.verbose then ["cpu: " ++ m.name ++ ": reset"] else []

/-- What is reported during `resume`. -/
def resumeReport : (bound : Nat) → Machine → List Word → List String
  | 0, _, _ => []
  | bound + 1, m, inputs =>
    m.tickReport ++
      match m.tick inputs with
      | ⟨.ok .ran, machine, left⟩ => resumeReport bound machine left
      | _ => []

/-- What is reported during `start`. -/
def startReport (bound : Nat) (m : Machine) (inputs : List Word) : List String :=
  m.resetReport ++ m.reset.resumeReport bound inputs

/-- What is reported during `run`. -/
def runReport (bound : Nat) (m : Machine) (inputs : List Word) (force : Bool) : List String :=
  if m.active && !force then [] else m.startReport bound inputs

/-- What is reported during `outputs`. -/
def outputsReport : (bound : Nat) → (limit : Option Nat) → Machine → List Word → List String
  | 0, _, _, _ => []
  | bound + 1, limit, m, inputs =>
    m.resumeReport (bound + 1) inputs ++
      match m.resume (bound + 1) inputs with
      | some ⟨.ok (some _), machine, _⟩ =>
        if limit.any (· ≤ 1) then []
        else outputsReport bound (limit.map (· - 1)) machine inputs
      | _ => []

/-- What is reported during `trace`. -/
def traceReport : (n : Nat) → Machine → List Word → List String
  | 0, _, _ => []
  | n + 1, m, inputs =>
    m.tickReport ++
      match m.tick inputs with
      | ⟨.ok _, machine, left⟩ => if machine.active then traceReport n machine left else []
      | _ => []

end TapeMachine.Machine
