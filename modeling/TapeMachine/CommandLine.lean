import TapeMachine.Assembler
import TapeMachine.CommandLine.Options
import TapeMachine.Emulator

/-!
# Command line

The command compiles an assembly file or loads an image, and then either writes
the image or runs it between its input and output. It works on the files of a
directory and on its standard streams, and ends with an exit code. A program that is
not done within the bound on its instructions has no exit code.
-/

namespace TapeMachine.CommandLine

/-- What the command works on. -/
structure World where
  files : Files := {}
  stdin : String := ""
  stdout : String := ""
  stderr : String := ""

/-- What the command leaves open. -/
structure Setting where
  /-- The instructions that a program may execute. -/
  bound : Nat
  /-- The language of expressions. -/
  script : Script
  order : Assembler.LinkOrder

/-- How the command ends. -/
inductive Ending where
  | exit (code : Nat)
  /-- The program is not done within the bound. -/
  | unfinished
  deriving DecidableEq, Repr

/-- A part of the command, which may end it. -/
abbrev Command := EStateM Ending World

/-- Writes a line to the standard error stream. -/
def report (line : String) : Command Unit :=
  modify fun w => { w with stderr := w.stderr ++ line ++ "\n" }

/-- Ends the command with an error message. -/
def fatal {α : Type} (message : String) : Command α := do
  report message
  throw (.exit 1)

/-- Reads the options. -/
def readOptions (args : List String) : Command Options :=
  match parseOptions {} args with
  | .error refusal => do
    refusal.message?.forM report
    usage.forM report
    throw (.exit (if refusal = .help then 0 else 2))
  | .ok (options, rest) =>
    if rest.isEmpty then return options
    else fatal (commandName ++ ": Unknown arguments: [" ++ " ".intercalate rest ++ "]")

/-- Notes how much a reader of a path leaves of the standard input, if the path
leads there. -/
def consume (path : String) (leave : List Char → List Char) : Command Unit :=
  modify fun w =>
    match w.files.place path with
    | .ok (_, some (.device .input)) => { w with stdin := String.ofList (leave w.stdin.toList) }
    | _ => w

/-- Compiles an assembly file. -/
def compile (s : Setting) (verbose : Bool) (path : String) : Command Listing := do
  let w ← get
  consume path fun _ => []
  match w.files.openRead w.stdin path with
  | .error e => fatal (path ++ ": " ++ e.message)
  | .ok source =>
    let fresh : Assembler := { predefined := Emulator.defines, script := s.script }
    let outcome := Assembler.parse s.order source fresh
    if verbose then (Assembler.report source outcome).forM report
    match outcome with
    | .error e _ => fatal (path ++ ": " ++ e.message)
    | .ok listing _ => return listing

/-- The emulator with the program that the options name. -/
def loadProgram (s : Setting) (o : Options) : Command Emulator := do
  if !o.compile.isEmpty then
    let listing ← compile s o.verbose o.compile
    return { verbose := o.verbose, listing, image := listing.image?.getD #[] }
  else if !o.program.isEmpty then
    let w ← get
    consume o.program Source.afterFirstLine
    match Image.load w.files w.stdin o.program with
    | .error e => fatal e.message
    | .ok image => return { verbose := o.verbose, image := image.toArray }
  else fatal (commandName ++ ": one of -c or -p is required")

/-- Opens the output. -/
def openOutput (path : String) : Command Files.Target := do
  if path = "-" then return .device .output
  let w ← get
  match w.files.create path with
  | .error e => fatal (path ++ ": " ++ e.message)
  | .ok (target, files) =>
    set { w with files }
    return target

/-- The sink for output. A full device refuses all. -/
def sinkFor (path : String) : Files.Target → Sink
  | .device .full => { failure := some (FileError.message ⟨"write", path, .noSpace⟩) }
  | _ => {}

/-- Puts text that was written to where it belongs. -/
def flush (target : Files.Target) (text : String) : Command Unit :=
  modify fun w =>
    match target with
    | .file path => { w with files := w.files.append path text }
    | .device .output => { w with stdout := w.stdout ++ text }
    | .device .error => { w with stderr := w.stderr ++ text }
    | .device _ => w

/-- Writes the image to the output. -/
def saveImage (emu : Emulator) (target : Files.Target) (sink : Sink) : Command Unit :=
  match Image.write sink emu.image.toList with
  | .error e => fatal e.message
  | .ok sink => flush target sink.written

/-- The source of input values, if there is one, with the name under which it is
reported. -/
def openInput (o : Options) : Command (Option Source × String) := do
  let w ← get
  if !o.inline.isEmpty then return (some { text := o.inline }, "-I")
  else if o.input = "-" then return (some { text := w.stdin }, o.input)
  else if o.input.isEmpty then return (none, o.input)
  else
    match w.files.openRead w.stdin o.input with
    | .error e => fatal (o.input ++ ": " ++ e.message)
    | .ok source => return (some source, o.input)

/-- Takes what was written to a channel out of it. -/
def takeWritten : Channel → String × Channel
  | .text t => (t.sink.written, .text { t with sink := { t.sink with written := "" } })
  | c => ("", c)

/-- Runs the program tick by tick. What a tick reports comes before what it puts
out. -/
def runTicks (target : Files.Target) : (bound : Nat) → Emulator → Command Unit
  | 0, _ => throw .unfinished
  | bound + 1, emu => do
    (emu.tickReport (bound + 1)).forM report
    match emu.tick (bound + 1) with
    | none => throw .unfinished
    | some (outcome, emu) =>
      let (written, input) := takeWritten emu.input
      flush target written
      match outcome with
      | .error e => fatal e.message
      | .ok true => return
      | .ok false => runTicks target bound { emu with input }

/-- Runs the program between a text channel's input and output. -/
def runProgram (bound : Nat) (emu : Emulator) (target : Files.Target) (channel : TextChannel) :
    Command Unit := do
  let emu := (emu.setInput (.text channel)).loopBack
  match emu.reset with
  | .error e => fatal e.message
  | .ok started =>
    emu.resetReport.forM report
    runTicks target bound started

/-- The command. -/
def command (s : Setting) (args : List String) : Command Unit := do
  let o ← readOptions args
  let emu ← loadProgram s o
  let target ← openOutput o.output
  let sink := sinkFor o.output target
  if o.save then saveImage emu target sink
  else
    let (input, name) ← openInput o
    let channel := ({ input, sink } : TextChannel).load
    match channel.error with
    | some e => fatal (name ++ ": " ++ e.message)
    | none => runProgram s.bound emu target channel

/-- Runs the command, and gives how it ends and what it leaves. -/
def run (s : Setting) (args : List String) (w : World) : Ending × World :=
  match command s args w with
  | .ok _ w => (.exit 0, w)
  | .error ending w => (ending, w)

end TapeMachine.CommandLine
