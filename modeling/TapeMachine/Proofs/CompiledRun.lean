import TapeMachine.CommandLine
import TapeMachine.Proofs.SavedImage
import TapeMachine.Proofs.WrittenListing

/-!
# Programs that are saved and run

A source can be compiled and run at once, or its image can be saved and run later. The two
ways differ in the listing alone, and this only decides the line that an error names. So
they end with the same exit code and have written the same text.
-/

namespace TapeMachine

/-- The error with the line that a listing has for its address. -/
def RuntimeError.locatedIn (e : RuntimeError) (l : Listing) : RuntimeError :=
  Emulator.failure { listing := l } e.ip e.cause

namespace Emulator

/-! ## Emulators with another listing -/

/-- The emulator with another listing. -/
def withListing (emu : Emulator) (l : Listing) : Emulator := { emu with listing := l }

/-- The emulator with a text channel for input and output. -/
def connected (emu : Emulator) (channel : TextChannel) : Emulator :=
  (emu.setInput (.text channel)).loopBack

/-- The listing has no part in sending. -/
private theorem sendOutput_withListing (emu : Emulator) (l : Listing) (value : Word) :
    (emu.withListing l).sendOutput value =
      ((emu.sendOutput value).1, (emu.sendOutput value).2.withListing l) := by
  obtain ⟨verbose, machine, listing, image, input, output, produced⟩ := emu
  cases output with
  | none => rfl
  | some c => rfl

/-- Sending does not change how much is reported. -/
private theorem verbose_sendOutput (emu : Emulator) (value : Word) :
    (emu.sendOutput value).2.verbose = emu.verbose := by
  obtain ⟨verbose, machine, listing, image, input, output, produced⟩ := emu
  cases output with
  | none => rfl
  | some c => rfl

/-- A value is delivered by sending it, and a refusal is an error. -/
theorem deliver_value (emu : Emulator) (value : Word) :
    emu.deliver (.ok (some value)) =
      ((emu.sendOutput value).1.elim (.ok false) fun e =>
        .error ((emu.sendOutput value).2.failure (emu.sendOutput value).2.machine.ip (.channel e)),
        (emu.sendOutput value).2) := by
  unfold deliver
  dsimp only
  obtain ⟨refusal, sent⟩ := emu.sendOutput value
  cases refusal with
  | none => rfl
  | some e => rfl

/-- The listing only decides the line that an error names. -/
theorem deliver_withListing (emu : Emulator) (l : Listing)
    (result : Except MachineError (Option Word)) :
    (emu.withListing l).deliver result =
      ((emu.deliver result).1.mapError (·.locatedIn l), (emu.deliver result).2.withListing l) := by
  match result with
  | .error e => rfl
  | .ok none => rfl
  | .ok (some value) =>
    rw [deliver_value, deliver_value, sendOutput_withListing]
    cases (emu.sendOutput value).1 with
    | none => rfl
    | some e => rfl

/-- Delivering a result does not change how much is reported. -/
private theorem verbose_deliver (emu : Emulator) (result : Except MachineError (Option Word)) :
    (emu.deliver result).2.verbose = emu.verbose := by
  match result with
  | .error e => rfl
  | .ok none => rfl
  | .ok (some value) =>
    rw [deliver_value]
    exact verbose_sendOutput emu value

/-- A tick resumes the machine with the input that it takes, and delivers the result. -/
theorem tick_eq_map (bound : Nat) (emu : Emulator) :
    emu.tick bound = (emu.takeInput.2.machine.resume bound emu.takeInput.1).map fun stop =>
      deliver { emu.takeInput.2 with machine := stop.machine } stop.result := by
  unfold tick
  obtain ⟨inputs, taken⟩ := emu.takeInput
  dsimp only
  cases taken.machine.resume bound inputs with
  | none => rfl
  | some stop => rfl

/-- A tick goes the same way whatever the listing is. -/
theorem tick_withListing (bound : Nat) (emu : Emulator) (l : Listing) :
    (emu.withListing l).tick bound =
      (emu.tick bound).map fun r => (r.1.mapError (·.locatedIn l), r.2.withListing l) := by
  have htaken : (emu.withListing l).takeInput = (emu.takeInput.1, emu.takeInput.2.withListing l) :=
    rfl
  rw [tick_eq_map, tick_eq_map, htaken, Option.map_map]
  congr 1
  funext stop
  exact deliver_withListing { emu.takeInput.2 with machine := stop.machine } l stop.result

/-- A tick does not change how much is reported. -/
private theorem verbose_tick {bound : Nat} {emu after : Emulator}
    {outcome : Except RuntimeError Bool}
    (htick : emu.tick bound = some (outcome, after)) : after.verbose = emu.verbose := by
  rw [tick_eq_map, Option.map_eq_some_iff] at htick
  obtain ⟨stop, _, hdelivered⟩ := htick
  have hverbose := verbose_deliver { emu.takeInput.2 with machine := stop.machine } stop.result
  rw [hdelivered] at hverbose
  exact hverbose

/-- A reset of an emulator with the same program goes the same way. -/
theorem reset_withListing {emu : Emulator} {l : Listing}
    (hprogram : (emu.withListing l).program = emu.program) :
    (emu.withListing l).reset = emu.reset.map (·.withListing l) := by
  unfold reset
  rw [hprogram]
  dsimp only
  split
  · rfl
  · rfl

/-- A reset does not change how much is reported. -/
private theorem verbose_reset {emu started : Emulator} (hreset : emu.reset = .ok started) :
    started.verbose = emu.verbose := by
  unfold reset at hreset
  dsimp only at hreset
  split at hreset
  · cases hreset
  · cases hreset
    rfl

end Emulator

namespace CommandLine

/-! ## Ticks -/

/-- What can be seen of the end of a command: how it ends, and the standard output. -/
def seen {α : Type} : EStateM.Result Ending World α → Ending × String
  | .ok _ w => (.exit 0, w.stdout)
  | .error ending w => (ending, w.stdout)


/-- A tick that reports nothing writes what it puts out, and the next one follows unless the
program ended. -/
theorem runTicks_succ {emu : Emulator} (hverbose : emu.verbose = false) (bound : Nat) (w : World) :
    runTicks (.device .output) (bound + 1) emu w =
      match emu.tick (bound + 1) with
      | none => .error .unfinished w
      | some (outcome, after) =>
        let w := { w with stdout := w.stdout ++ (takeWritten after.input).1 }
        match outcome with
        | .error e => fatal e.message w
        | .ok true => .ok () w
        | .ok false =>
          runTicks (.device .output) bound { after with input := (takeWritten after.input).2 }
            w := by
  have hreport : emu.tickReport (bound + 1) = [] := by
    rw [Emulator.tickReport, hverbose]
    rfl
  rw [runTicks, hreport]
  cases emu.tick (bound + 1) with
  | none => rfl
  | some r =>
    obtain ⟨outcome, after⟩ := r
    match outcome with
    | .error e => rfl
    | .ok true => rfl
    | .ok false => rfl

/-- A run can be told from no other with another listing. -/
theorem seen_runTicks_withListing {bound : Nat} {emu : Emulator} (hverbose : emu.verbose = false)
    (l : Listing) {w v : World} (hstdout : w.stdout = v.stdout) :
    seen (runTicks (.device .output) bound (emu.withListing l) w) =
      seen (runTicks (.device .output) bound emu v) := by
  -- Only the standard output is kept equal: errors name other lines on the other stream.
  induction bound generalizing emu w v with
  | zero => exact congrArg (Prod.mk Ending.unfinished) hstdout
  | succ bound ih =>
    have hquiet : (emu.withListing l).verbose = false := hverbose
    rw [runTicks_succ hverbose, runTicks_succ hquiet, Emulator.tick_withListing]
    cases htick : emu.tick (bound + 1) with
    | none => exact congrArg (Prod.mk Ending.unfinished) hstdout
    | some r =>
      obtain ⟨outcome, after⟩ := r
      have hout : w.stdout ++ (takeWritten after.input).1 =
          v.stdout ++ (takeWritten after.input).1 := by rw [hstdout]
      match outcome with
      | .error e => exact congrArg (Prod.mk (Ending.exit 1)) hout
      | .ok true => exact congrArg (Prod.mk (Ending.exit 0)) hout
      | .ok false =>
        have hnext : Emulator.verbose { after with input := (takeWritten after.input).2 } = false :=
          (Emulator.verbose_tick htick).trans hverbose
        exact ih hnext hout

/-! ## Runs with input values in place -/

/-- The channel from the values of a text to the standard output. -/
def inlineChannel (t : String) : TextChannel :=
  TextChannel.load { input := if t.isEmpty then none else some { text := t } }

/-- Runs an emulator on the values of a text. -/
def runInline (bound : Nat) (t : String) (emu : Emulator) : Command Unit :=
  match (inlineChannel t).error with
  | some e => fatal ((if t.isEmpty then "" else "-I") ++ ": " ++ e.message)
  | none => runProgram bound emu (.device .output) (inlineChannel t)

/-- What a command does once it has its program. -/
def finish (bound : Nat) (o : Options) (emu : Emulator) : Command Unit := do
  let target ← openOutput o.output
  let sink := sinkFor o.output target
  if o.save then saveImage emu target sink
  else
    let (input, name) ← openInput o
    let channel := ({ input, sink } : TextChannel).load
    match channel.error with
    | some e => fatal (name ++ ": " ++ e.message)
    | none => runProgram bound emu target channel

/-- A command reads its options, loads a program, and does what the options say. -/
theorem command_eq (s : Setting) (args : List String) :
    command s args = readOptions args >>= fun o => loadProgram s o >>= finish s.bound o := rfl

/-- With a text as input and no other options, the program is run on this text. -/
theorem finish_inline (bound : Nat) (c p t : String) (emu : Emulator) :
    finish bound { compile := c, program := p, inline := t } emu = runInline bound t emu := by
  by_cases ht : t.isEmpty = true
  · have hopen : openInput { compile := c, program := p, inline := t } = pure (none, "") := by
      funext w
      unfold openInput
      simp only [ht]
      rfl
    unfold finish runInline inlineChannel
    rw [hopen, if_pos ht]
    rfl
  · have hopen : openInput { compile := c, program := p, inline := t } =
        pure (some { text := t }, "-I") := by
      funext w
      unfold openInput
      simp only [ht]
      rfl
    unfold finish runInline inlineChannel
    rw [hopen, if_neg ht, if_neg ht]
    rfl

/-- The command that assembles a source and runs it on a text. -/
theorem command_compile_inline (s : Setting) (c t : String) :
    command s ["-c", c, "-I", t] =
      loadProgram s { compile := c, inline := t } >>= runInline s.bound t := by
  have hoptions : readOptions ["-c", c, "-I", t] = pure { compile := c, inline := t } := rfl
  rw [command_eq, hoptions, pure_bind]
  congr 1
  funext emu
  exact finish_inline s.bound c "" t emu

/-- The command that loads an image and runs it on a text. -/
private theorem command_program_inline (s : Setting) (p t : String) :
    command s ["-p", p, "-I", t] =
      loadProgram s { program := p, inline := t } >>= runInline s.bound t := by
  have hoptions : readOptions ["-p", p, "-I", t] = pure { program := p, inline := t } := rfl
  rw [command_eq, hoptions, pure_bind]
  congr 1
  funext emu
  exact finish_inline s.bound "" p t emu

/-- A program that reports nothing is connected to the channel, reset and run. -/
theorem runProgram_eq {emu : Emulator} (hverbose : emu.verbose = false) (bound : Nat)
    (target : Files.Target) (channel : TextChannel) (w : World) :
    runProgram bound emu target channel w =
      match (emu.connected channel).reset with
      | .error e => fatal e.message w
      | .ok started => runTicks target bound started w := by
  have hreport : (emu.connected channel).resetReport = [] := by
    have hquiet : (emu.connected channel).verbose = false := hverbose
    rw [Emulator.resetReport, hquiet]
    rfl
  unfold runProgram
  unfold Emulator.connected at hreport ⊢
  cases (emu.setInput (.text channel)).loopBack.reset with
  | error e => rfl
  | ok started =>
    rw [hreport]
    rfl

/-- An empty program fails, if only when it is reset. -/
theorem seen_runInline_of_empty (bound : Nat) (t : String) {emu : Emulator}
    (hprogram : emu.program = #[]) (hverbose : emu.verbose = false) (w : World) :
    seen (runInline bound t emu w) = (.exit 1, w.stdout) := by
  unfold runInline
  cases (inlineChannel t).error with
  | some e => rfl
  | none =>
    have hsame : (emu.connected (inlineChannel t)).program = #[] := hprogram
    have hreset : (emu.connected (inlineChannel t)).reset = .error .empty := by
      rw [Emulator.reset, hsame]
      rfl
    dsimp only
    rw [runProgram_eq hverbose, hreset]
    rfl

/-- The listing cannot be seen in a run with input values in place. -/
theorem seen_runInline_withListing (bound : Nat) (t : String) {emu : Emulator} {l : Listing}
    (hprogram : (emu.withListing l).program = emu.program) (hverbose : emu.verbose = false)
    {w v : World} (hstdout : w.stdout = v.stdout) :
    seen (runInline bound t (emu.withListing l) w) = seen (runInline bound t emu v) := by
  have hquiet : (emu.withListing l).verbose = false := hverbose
  unfold runInline
  cases (inlineChannel t).error with
  | some e => exact congrArg (Prod.mk (Ending.exit 1)) hstdout
  | none =>
    have hsame : ((emu.connected (inlineChannel t)).withListing l).program =
        (emu.connected (inlineChannel t)).program := hprogram
    have hreset : ((emu.withListing l).connected (inlineChannel t)).reset =
        (emu.connected (inlineChannel t)).reset.map (·.withListing l) :=
      Emulator.reset_withListing hsame
    dsimp only
    rw [runProgram_eq hverbose, runProgram_eq hquiet, hreset]
    cases hstarted : (emu.connected (inlineChannel t)).reset with
    | error e => exact congrArg (Prod.mk (Ending.exit 1)) hstdout
    | ok started =>
      exact seen_runTicks_withListing ((Emulator.verbose_reset hstarted).trans hverbose) l hstdout

/-! ## Programs -/

/-- The assembler with which the command starts. -/
def assembler (script : Script) : Assembler := { predefined := Emulator.defines, script }

/-- The listing that a source assembles to, if there is a source and it has no error. It is the
same in every order of links. -/
def assembled? (script : Script) : Except FileError Source → Option Listing
  | .error _ => none
  | .ok source =>
    match (Assembler.parse .ascending source).run (assembler script) with
    | .ok listing _ => some listing
    | .error _ _ => none

/-- The listing of a source that can be assembled. -/
theorem assembled?_of_ok {script : Script} {order : Assembler.LinkOrder} {source : Source}
    {l : Listing} {b : Assembler}
    (hparse : (Assembler.parse order source).run (assembler script) = .ok l b) :
    assembled? script (.ok source) = some l := by
  rw [assembled?, Assembler.Course.parse_eq_ok_of_order hparse .ascending]

/-- A source that cannot be assembled has no listing. -/
private theorem assembled?_of_error {script : Script} {order : Assembler.LinkOrder}
    {source : Source} {e : AssemblyError} {b : Assembler}
    (hparse : (Assembler.parse order source).run (assembler script) = .error e b) :
    assembled? script (.ok source) = none := by
  unfold assembled?
  dsimp only
  split
  · next l c hascending =>
    rw [Assembler.Course.parse_eq_ok_of_order hascending order] at hparse
    cases hparse
  · rfl

/-- The image of a listing, which is empty if a word has no place. -/
def imageOf (l : Listing) : Array Word := l.image?.getD #[]

/-- Only the standard input changes when a path is read. -/
theorem consume_eq (path : String) (leave : List Char → List Char) (w : World) :
    ∃ stdin, consume path leave w = .ok () { w with stdin } := by
  have hmodify (f : World → World) : (modify f : Command Unit) w = .ok () (f w) := rfl
  unfold consume
  rw [hmodify]
  split
  · exact ⟨_, rfl⟩
  · exact ⟨w.stdin, rfl⟩

/-- Compiling takes the listing of the source, and changes neither files nor output. -/
theorem compile_eq (s : Setting) (path : String) (w : World) :
    ∃ after,
      compile s false path w =
        (match assembled? s.script (w.files.openRead w.stdin path) with
        | some listing => .ok listing after
        | none => .error (.exit 1) after) ∧
      after.files = w.files ∧ after.stdout = w.stdout := by
  obtain ⟨stdin, hconsume⟩ := consume_eq path (fun _ => []) w
  have hget : (get : Command World) w = .ok w w := rfl
  unfold compile
  rw [Outcome.bind_of_ok hget, Outcome.bind_of_ok hconsume]
  cases w.files.openRead w.stdin path with
  | error e => exact ⟨_, rfl, rfl, rfl⟩
  | ok source =>
    dsimp only
    cases hparse : Assembler.parse s.order source (assembler s.script) with
    | error e b =>
      rw [assembled?_of_error hparse]
      unfold assembler at hparse
      rw [hparse]
      exact ⟨_, rfl, rfl, rfl⟩
    | ok listing b =>
      rw [assembled?_of_ok hparse]
      unfold assembler at hparse
      rw [hparse]
      exact ⟨_, rfl, rfl, rfl⟩

/-- The emulator of a compiled program. -/
def compiled (l : Listing) : Emulator := Emulator.withListing { image := imageOf l } l

/-- A compiled program is the image of its listing, with this listing. -/
theorem loadProgram_compile (s : Setting) (o : Options) (hverbose : o.verbose = false)
    (hprogram : o.program = "") (w : World) :
    ∃ after,
      loadProgram s o w =
        (match assembled? s.script (w.files.openRead w.stdin o.compile) with
        | some listing => .ok (compiled listing) after
        | none => .error (.exit 1) after) ∧
      after.files = w.files ∧ after.stdout = w.stdout := by
  unfold loadProgram
  rw [hverbose, hprogram]
  by_cases hempty : o.compile.isEmpty = true
  · have hnone : assembled? s.script (w.files.openRead w.stdin o.compile) = none := by
      rw [Files.openRead_of_isEmpty hempty]
      rfl
    rw [hnone, hempty]
    exact ⟨_, rfl, rfl, rfl⟩
  · obtain ⟨after, hcompile, hfiles, hstdout⟩ := compile_eq s o.compile w
    refine ⟨after, ?_, hfiles, hstdout⟩
    rw [if_pos (by simpa using hempty)]
    cases hlisting : assembled? s.script (w.files.openRead w.stdin o.compile) with
    | none =>
      rw [hlisting] at hcompile
      exact Outcome.bind_of_error hcompile
    | some listing =>
      rw [hlisting] at hcompile
      exact Outcome.bind_of_ok hcompile

/-- Loading an image gives the values that its file has, or ends the command. -/
private theorem loadProgram_image (s : Setting) {path : String} (hpath : path.isEmpty = false)
    (t : String) (w : World) :
    ∃ after,
      loadProgram s { program := path, inline := t } w =
        (match Image.load w.files w.stdin path with
        | .ok image => .ok { image := image.toArray } after
        | .error _ => .error (.exit 1) after) ∧
      after.stdout = w.stdout := by
  obtain ⟨stdin, hconsume⟩ := consume_eq path Source.afterFirstLine w
  have hget : (get : Command World) w = .ok w w := rfl
  unfold loadProgram
  rw [if_neg (by simp), if_pos (by simp [hpath]), Outcome.bind_of_ok hget,
    Outcome.bind_of_ok hconsume]
  cases Image.load w.files w.stdin path with
  | error e => exact ⟨_, rfl, rfl⟩
  | ok image => exact ⟨_, rfl, rfl⟩

/-- A file that output goes to is emptied. -/
private theorem openOutput_file {path key : String} (hpath : path ≠ "-") {w : World}
    (htarget : w.files.target path = .ok (.file key)) :
    openOutput path w = .ok (.file key) { w with files := w.files.put key "" } := by
  have hget : (get : Command World) w = .ok w w := rfl
  have hcreate : w.files.create path = .ok (.file key, w.files.put key "") := by
    rw [Files.create, htarget]
    rfl
  unfold openOutput
  rw [if_neg hpath, Outcome.bind_of_ok hget, hcreate]
  rfl

/-- Saving writes the text of the image to the file, and nothing else. -/
theorem finish_save (bound : Nat) (c : String) {path key : String} (hpath : path ≠ "-")
    (emu : Emulator) {w : World} (htarget : w.files.target path = .ok (.file key)) :
    finish bound { compile := c, save := true, output := path } emu w =
      .ok () { w with files := w.files.put key (Image.render emu.image.toList) } := by
  have hfile : (w.files.put key "").append key ("" ++ Image.render emu.image.toList) =
      w.files.put key (Image.render emu.image.toList) := by
    rw [String.empty_append, Files.append_put]
  unfold finish
  rw [Outcome.bind_of_ok (openOutput_file hpath htarget), ← hfile]
  rfl

/-- The command that assembles a source and saves its image. -/
theorem command_save (s : Setting) (c path : String) :
    command s ["-c", c, "-s", "-o", path] =
      loadProgram s { compile := c, save := true, output := path } >>=
        finish s.bound { compile := c, save := true, output := path } := rfl

/-- A source is saved as the image of its listing. -/
theorem run_save_of_some (s : Setting) {files : Files} {stdin c path key : String}
    {listing : Listing} (hsome : assembled? s.script (files.openRead stdin c) = some listing)
    (hpath : path ≠ "-") (htarget : files.target path = .ok (.file key)) :
    ∃ saved, run s ["-c", c, "-s", "-o", path] { files, stdin } = (.exit 0, saved) ∧
      saved.files = files.put key (Image.render (imageOf listing).toList) := by
  obtain ⟨after, hload, rfl, -⟩ :=
    loadProgram_compile s { compile := c, save := true, output := path } rfl rfl { files, stdin }
  dsimp only at hload
  rw [hsome] at hload
  refine ⟨{ after with files := after.files.put key (Image.render (imageOf listing).toList) }, ?_,
    rfl⟩
  rw [run, command_save, Outcome.bind_of_ok hload, finish_save s.bound c hpath _ htarget]
  rfl

/-- A source that does not assemble is not saved. -/
theorem run_save_of_none (s : Setting) {files : Files} {stdin c : String} (path : String)
    (hnone : assembled? s.script (files.openRead stdin c) = none) :
    (run s ["-c", c, "-s", "-o", path] { files, stdin }).1 = .exit 1 := by
  obtain ⟨after, hload, -, -⟩ :=
    loadProgram_compile s { compile := c, save := true, output := path } rfl rfl { files, stdin }
  dsimp only at hload
  rw [hnone] at hload
  rw [run, command_save, Outcome.bind_of_error hload]

/-! ## What is seen of a run -/

/-- How a command ends, and what it writes to the standard output. -/
def observed (s : Setting) (args : List String) (files : Files) (stdin : String) :
    Ending × String :=
  let (ending, w) := run s args { files, stdin }
  (ending, w.stdout)

/-- What is observed of a command is the outcome of the command and its output. -/
theorem observed_eq (s : Setting) (args : List String) (files : Files) (stdin : String) :
    observed s args files stdin = seen (command s args { files, stdin }) := by
  unfold observed run
  cases command s args { files, stdin } with
  | ok _ w => rfl
  | error code w => rfl

/-- The program of an emulator with a listing is the image of the listing. -/
private theorem program_compiled (l : Listing) : (compiled l).program = imageOf l := by
  unfold Emulator.program
  split
  · rfl
  · rfl

/-- A source that does not assemble is neither saved nor run. -/
theorem observed_compile_of_none {s : Setting} {files : Files} {stdin c : String}
    (hnone : assembled? s.script (files.openRead stdin c) = none) (t : String) :
    observed s ["-c", c, "-I", t] files stdin = (.exit 1, "") := by
  obtain ⟨after, hload, -, hstdout⟩ :=
    loadProgram_compile s { compile := c, inline := t } rfl rfl { files, stdin }
  rw [hnone] at hload
  rw [observed_eq, command_compile_inline, Outcome.bind_of_error hload]
  exact congrArg (Prod.mk (Ending.exit 1)) hstdout

/-- A source that can be assembled is run on the text. -/
private theorem observed_compile_of_some {s : Setting} {files : Files} {stdin c : String}
    {listing : Listing} (hsome : assembled? s.script (files.openRead stdin c) = some listing)
    (t : String) :
    ∃ w, w.stdout = "" ∧ observed s ["-c", c, "-I", t] files stdin =
      seen (runInline s.bound t (compiled listing) w) := by
  obtain ⟨after, hload, -, hstdout⟩ :=
    loadProgram_compile s { compile := c, inline := t } rfl rfl { files, stdin }
  rw [hsome] at hload
  refine ⟨after, hstdout, ?_⟩
  rw [observed_eq, command_compile_inline, Outcome.bind_of_ok hload]

/-- An image that was saved is loaded and run on the text, unless it is empty. -/
theorem observed_image {files : Files} {path key : String}
    (htarget : files.target path = .ok (.file key)) (image : Array Word) (s : Setting)
    (t stdin : String) :
    ∃ w, w.stdout = "" ∧
      observed s ["-p", path, "-I", t] (files.put key (Image.render image.toList)) stdin =
        if image = #[] then (.exit 1, "") else seen (runInline s.bound t { image } w) := by
  obtain ⟨after, hload, hstdout⟩ := loadProgram_image s (Files.isEmpty_of_target htarget) t
    { files := files.put key (Image.render image.toList), stdin }
  refine ⟨after, hstdout, ?_⟩
  dsimp only at hload
  rw [Image.load_put htarget] at hload
  rw [observed_eq, command_program_inline]
  by_cases hempty : image = #[]
  · rw [if_pos (by simp [hempty])] at hload
    rw [if_pos hempty, Outcome.bind_of_error hload]
    exact congrArg (Prod.mk (Ending.exit 1)) hstdout
  · rw [if_neg (by simpa using hempty)] at hload
    rw [if_neg hempty, Outcome.bind_of_ok hload]

/-- The saved image of a listing runs as the listing does. -/
theorem observed_image_eq_compile {s s' : Setting} {files files' : Files}
    {stdin' c path key : String} {listing : Listing}
    (htarget : files.target path = .ok (.file key))
    (hsome : assembled? s'.script (files'.openRead stdin' c) = some listing)
    (hbound : s.bound = s'.bound) (t stdin : String) :
    observed s ["-p", path, "-I", t]
        (files.put key (Image.render (imageOf listing).toList)) stdin =
      observed s' ["-c", c, "-I", t] files' stdin' := by
  obtain ⟨v, hv, himage⟩ := observed_image htarget (imageOf listing) s t stdin
  obtain ⟨w, hw, hcompile⟩ := observed_compile_of_some hsome t
  have hprogram := program_compiled listing
  rw [himage, hcompile, hbound]
  -- The text of an empty image is refused when it is loaded, an empty program when it is reset.
  by_cases hempty : imageOf listing = #[]
  · rw [if_pos hempty, seen_runInline_of_empty s'.bound t (hprogram.trans hempty) rfl, hw]
  · rw [if_neg hempty]
    exact (seen_runInline_withListing s'.bound t hprogram rfl (hw.trans hv.symm)).symm

/-- Saving a source to a file succeeds exactly if the source assembles. The saved image then
runs as the source does, wherever this still reads the same: for any input values and any
bound both end in the same way, and the texts that are written are equal. A source that does not
assemble is neither saved nor run, and nothing is written. The order of links is nowhere seen. -/
theorem observed_saved (s : Setting) (files : Files) (stdin c path t : String) :
    let saved := run s ["-c", c, "-s", "-o", path] { files, stdin }
    (∀ key, path ≠ "-" → files.target path = .ok (.file key) →
      (saved.1 = .exit 0 ↔ (assembled? s.script (files.openRead stdin c)).isSome = true) ∧
      (saved.1 = .exit 0 → ∀ first second : Setting, first.bound = second.bound →
        second.script = s.script → ∀ files' stdin' stdin'',
        files'.openRead stdin' c = files.openRead stdin c →
        observed first ["-p", path, "-I", t] saved.2.files stdin'' =
          observed second ["-c", c, "-I", t] files' stdin')) ∧
    (assembled? s.script (files.openRead stdin c) = none →
      saved.1 = .exit 1 ∧ ∀ second : Setting, second.script = s.script → ∀ files' stdin',
        files'.openRead stdin' c = files.openRead stdin c →
        observed second ["-c", c, "-I", t] files' stdin' = (.exit 1, "")) := by
  intro saved
  refine ⟨fun key hpath htarget => ?_, fun hnone => ⟨run_save_of_none s path hnone, ?_⟩⟩
  · cases hlisting : assembled? s.script (files.openRead stdin c) with
    | none =>
      have hcode : saved.1 = .exit 1 := run_save_of_none s path hlisting
      simp [hcode]
    | some listing =>
      obtain ⟨after, hrun, hfiles⟩ := run_save_of_some s hlisting hpath htarget
      have hsaved : saved = (.exit 0, after) := hrun
      rw [hsaved]
      refine ⟨by simp, fun _ first second hbound hscript files' stdin' stdin'' hsource => ?_⟩
      rw [← hsource, ← hscript] at hlisting
      rw [hfiles]
      exact observed_image_eq_compile htarget hlisting hbound t stdin''
  · intro second hscript files' stdin' hsource
    rw [← hsource, ← hscript] at hnone
    exact observed_compile_of_none hnone t

namespace FaultyProgram

/-- A source that puts a number out, and then goes on to a word that is no instruction. -/
def text : String := "out #5\n.data 77"

/-- The files with this source. -/
def files : Files := ({} : Files).put "p.ic" text

/-- A setting with enough instructions. -/
def setting : Setting := ⟨9, .empty, .ascending⟩

/-- The source is the text of its file. -/
private theorem openRead_source : files.openRead "" "p.ic" = .ok { text } :=
  Files.openRead_put (by decide) text ""

/-- The source can be assembled, to three words. -/
theorem exists_assembled :
    ∃ listing, assembled? setting.script (files.openRead "" "p.ic") = some listing ∧
      imageOf listing = #[104, 5, 77] := by
  let blank : Assembler.Gap := ⟨[' '], by decide, by decide⟩
  let items : List Item := [
    .operation .output [(.immediate, ⟨blank, 5, .inRadix .decimal 5⟩)] rfl (by decide),
    .data [⟨blank, 77, .inRadix .decimal 77⟩] (List.cons_ne_nil _ _)]
  have htext : text = String.ofList (Item.text false items) := by decide
  have hfits : ∀ item ∈ items, Text.byteLength item.line.text < Source.lineLimit := by decide
  have hbare : Assembler.Bare (assembler setting.script).fresh := by
    refine .fresh_of fun word hword => ?_
    have hdefines := Assembler.getElem?_defines hword
    change Emulator.defines[word]? = none
    rw [Emulator.defines, Table.getElem?_override hdefines]
    exact Table.getElem?_foldl_insert _ ∅ (Assembler.not_mem_of_isCapital hword (by decide))
  obtain ⟨l, b, hparse, hterms⟩ := Assembler.run_parse_items hbare items false hfits
  have himage := Assembler.image?_of_codes (hparse .ascending) (Assembler.codes_of_terms hterms)
    (by decide)
  refine ⟨l, ?_, ?_⟩
  · rw [openRead_source, htext]
    exact assembled?_of_ok (hparse .ascending)
  · rw [imageOf, himage]
    decide

/-- The image puts the number out and ends with a fault. -/
theorem observed_source :
    observed setting ["-c", "p.ic", "-I", "3"] files "" = (.exit 1, "5\n") := by
  have htarget : files.target "p.img" = .ok (.file "p.img") := by decide
  obtain ⟨listing, hsome, himage⟩ := exists_assembled
  obtain ⟨w, hw, hobserved⟩ := observed_image htarget (imageOf listing) setting "3" ""
  have hfresh : seen (runInline 9 "3" { image := #[104, 5, 77] } w) =
      seen (runInline 9 "3" { image := #[104, 5, 77] } {}) :=
    @seen_runInline_withListing 9 "3" { image := #[104, 5, 77] } {} rfl rfl w {} hw
  have hseen : seen (runInline 9 "3" { image := #[104, 5, 77] } {}) = (.exit 1, "5\n") := rfl
  have hbound : setting.bound = 9 := rfl
  have hsame : observed setting ["-p", "p.img", "-I", "3"]
        (files.put "p.img" (Image.render (imageOf listing).toList)) "" =
      observed setting ["-c", "p.ic", "-I", "3"] files "" :=
    observed_image_eq_compile htarget hsome rfl "3" ""
  rw [← hsame, hobserved, himage, if_neg (by decide), hbound, hfresh, hseen]

/-- The source is saved, and both ways to run it write the number and end with a fault. A
source that is not there is not run. -/
theorem observed_saved_fault :
    let saved := run setting ["-c", "p.ic", "-s", "-o", "p.img"] { files }
    "p.img" ≠ "-" ∧ files.target "p.img" = .ok (.file "p.img") ∧ saved.1 = .exit 0 ∧
      observed setting ["-p", "p.img", "-I", "3"] saved.2.files "" = (.exit 1, "5\n") ∧
      observed setting ["-c", "p.ic", "-I", "3"] files "" = (.exit 1, "5\n") ∧
      observed setting ["-c", "q.ic", "-I", "3"] files "" = (.exit 1, "") := by
  have hpath : "p.img" ≠ "-" := by decide
  have htarget : files.target "p.img" = .ok (.file "p.img") := by decide
  have hmissing : assembled? setting.script (files.openRead "" "q.ic") = none := rfl
  obtain ⟨listing, hlisting, _⟩ := exists_assembled
  have hsome : (assembled? setting.script (files.openRead "" "p.ic")).isSome = true := by
    rw [hlisting, Option.isSome_some]
  obtain ⟨hiff, hruns⟩ :=
    (observed_saved setting files "" "p.ic" "p.img" "3").1 "p.img" hpath htarget
  have hcode := hiff.mpr hsome
  have hsame := hruns hcode setting setting rfl rfl files "" "" rfl
  obtain ⟨_, hfails⟩ := (observed_saved setting files "" "q.ic" "p.img" "3").2 hmissing
  exact ⟨hpath, htarget, hcode, hsame.trans observed_source, observed_source,
    hfails setting rfl files "" rfl⟩

end FaultyProgram

end CommandLine

end TapeMachine
