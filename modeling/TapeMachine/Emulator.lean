import TapeMachine.Channel
import TapeMachine.Image
import TapeMachine.Listing
import TapeMachine.Machine.Run

/-!
# Emulator

An emulator runs a machine between two channels. At every tick the machine gets
all values of the input channel and runs up to its next output, which is sent to
the output channel.
-/

namespace TapeMachine

/-- Why a run of the emulator ends early. -/
inductive RuntimeCause where
  | machine (e : MachineError)
  | channel (e : ChannelError)
  deriving DecidableEq, Repr

/-- The text of a cause. -/
def RuntimeCause.message : RuntimeCause → String
  | machine e => e.message
  | channel e => e.message

/-- A failed tick: where it happened, the source line of that address or zero, and
why. -/
structure RuntimeError where
  ip : Word
  line : Int
  cause : RuntimeCause
  deriving DecidableEq, Repr

/-- The text of a runtime error. -/
def RuntimeError.message (e : RuntimeError) : String :=
  if e.line = 0 then
    Message.fill "ip %d %v" [.number e.ip.toInt, .text e.cause.message]
  else
    Message.fill "line %d ip %d %v" [.number e.line, .number e.ip.toInt, .text e.cause.message]

/-- The name under which an emulated machine reports. -/
def Emulator.machineName : String := "ICM"

/-- A machine with its program and channels. -/
structure Emulator where
  verbose : Bool := false
  machine : Machine := Machine.ofImage Emulator.machineName #[]
  /-- The assembled program, if there is one. -/
  listing : Listing := {}
  /-- The program image, where there is no listing. -/
  image : Array Word := #[]
  input : Channel := .fixed []
  /-- The output channel, or none if output goes to the input channel. -/
  output : Option Channel := some (.queue { capacity := 8192 })
  /-- How many values the machine put out since the last reset. Like the count of
  instructions, this is a number without a bound, and not a word. -/
  produced : Nat := 0

namespace Emulator

/-- Names for assembly text: the instruction set and the sizes of the tape. -/
def defines : Table String :=
  (Table.ofPairs [("TAPE_GROWTH", Nat.repr Tape.blockSize),
    ("TAPE_DENSE_LIMIT", Nat.repr Tape.denseLimit)]).override Instruction.defines

/-- The image that a reset loads. -/
def program (emu : Emulator) : Array Word :=
  if emu.listing.entries.isEmpty then emu.image else emu.listing.image?.getD #[]

/-- The channel that output goes to. -/
def outputChannel (emu : Emulator) : Channel := emu.output.getD emu.input

/-- Replaces the input channel. Output that went to the old one still does. -/
def setInput (emu : Emulator) (c : Channel) : Emulator :=
  { emu with input := c, output := some emu.outputChannel }

/-- Replaces the output channel. -/
def setOutput (emu : Emulator) (c : Channel) : Emulator := { emu with output := some c }

/-- Sends output to the input channel. -/
def loopBack (emu : Emulator) : Emulator := { emu with output := none }

/-- Loads the program into a new machine and rewinds the channels. -/
def reset (emu : Emulator) : Except ImageError Emulator :=
  let image := emu.program
  if image.isEmpty then .error .empty
  else
    let machine := { Machine.ofImage machineName image with verbose := emu.verbose }
    .ok { emu with
      machine := machine.reset
      input := emu.input.rewind
      output := emu.output.map Channel.rewind
      produced := 0 }

/-- The source line of an address, or zero. -/
def lineOf (emu : Emulator) (ip : Word) : Int :=
  match emu.listing.find? ip with
  | none => 0
  | some (e, _) => e.line

/-- An error at an address. -/
def failure (emu : Emulator) (ip : Word) (cause : RuntimeCause) : RuntimeError :=
  ⟨ip, emu.lineOf ip, cause⟩

/-- Acts on the channel that output goes to. -/
def onOutput {α : Type} (emu : Emulator) (act : Channel → α × Channel) : α × Emulator :=
  match emu with
  | ⟨verbose, machine, listing, image, input, some c, produced⟩ =>
    let (x, c) := act c
    (x, ⟨verbose, machine, listing, image, input, some c, produced⟩)
  | ⟨verbose, machine, listing, image, input, none, produced⟩ =>
    let (x, c) := act input
    (x, ⟨verbose, machine, listing, image, c, none, produced⟩)

/-- Counts an output value, and sends it to where output goes. -/
def sendOutput (emu : Emulator) (value : Word) : Option ChannelError × Emulator :=
  { emu with produced := emu.produced + 1 }.onOutput (·.send value)

/-- The address that a machine error is reported at. -/
def errorAddress (m : Machine) : MachineError → Word
  | .fault f => f.ip
  | _ => m.ip

/-- What becomes of the result of a run. The answer says whether the machine halted. -/
def deliver (emu : Emulator) (result : Except MachineError (Option Word)) :
    Except RuntimeError Bool × Emulator :=
  match result with
  | .error e => (.error (emu.failure (errorAddress emu.machine e) (.machine e)), emu)
  | .ok none => (.ok true, emu)
  | .ok (some value) =>
    match emu.sendOutput value with
    | (none, emu) => (.ok false, emu)
    | (some e, emu) => (.error (emu.failure emu.machine.ip (.channel e)), emu)

/-- The emulator once a tick has taken its input, and that input. -/
def takeInput (emu : Emulator) : List Word × Emulator :=
  let (inputs, input) := emu.input.collect
  (inputs, { emu with machine := { emu.machine with verbose := emu.verbose }, input })

/-- Runs the machine up to its next output. -/
def tick (bound : Nat) (emu : Emulator) : Option (Except RuntimeError Bool × Emulator) :=
  match emu.takeInput with
  | (inputs, ⟨verbose, machine, listing, image, input, output, produced⟩) =>
    match machine.resume bound inputs with
    | none => none
    | some ⟨result, machine, _⟩ =>
      some (deliver ⟨verbose, machine, listing, image, input, output, produced⟩ result)

/-- Ticks until the machine halts or a tick fails. -/
def run : (bound : Nat) → Emulator → Option (Option RuntimeError × Emulator)
  | 0, _ => none
  | bound + 1, emu =>
    match emu.tick (bound + 1) with
    | none => none
    | some (.error e, emu) => some (some e, emu)
    | some (.ok true, emu) => some (none, emu)
    | some (.ok false, emu) => run bound emu

/-! ## Reports -/

/-- What a verbose emulator reports when it is reset. -/
def resetReport (emu : Emulator) : List String :=
  let size := emu.program.size
  if emu.verbose && size != 0 then
    ["cpu: " ++ machineName ++ ": reset", "emulator: " ++ Nat.repr size ++ " words loaded"]
  else []

/-- What a verbose emulator reports during a tick. -/
def tickReport (bound : Nat) (emu : Emulator) : List String :=
  if emu.verbose then
    let (inputs, taken) := emu.takeInput
    taken.machine.resumeReport bound inputs ++
      match emu.tick bound with
      | some (.ok true, done) =>
        ["emulator: halted after " ++ Nat.repr done.produced ++ " outputs, " ++
          Nat.repr done.machine.ticks ++ " ticks"]
      | _ => []
  else []

/-- What a verbose emulator reports during a run. -/
def runReport : (bound : Nat) → Emulator → List String
  | 0, _ => []
  | bound + 1, emu =>
    emu.tickReport (bound + 1) ++
      match emu.tick (bound + 1) with
      | some (.ok false, emu) => runReport bound emu
      | _ => []

end Emulator

end TapeMachine
