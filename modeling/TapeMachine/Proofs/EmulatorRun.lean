import TapeMachine.Emulator

/-!
# The emulator in step with its machine

An emulator resumes its machine at every tick with all that its input channel has to
give. A channel that replays its values gives the same ones each time, which is what
`Machine.outputs` does with its inputs. So the ticks of an emulator are the steps of
`outputs`: one tick is shown to be one resumption of the machine, and the run follows
by induction, whether it ends in a halt or a failure or is broken off.
-/

namespace TapeMachine

namespace Machine

/-- Two machines that differ at most in their names and in whether they report. -/
structure Matches (m n : Machine) : Prop where
  tape : m.tape = n.tape
  ip : m.ip = n.ip
  base : m.base = n.base
  ticks : m.ticks = n.ticks
  active : m.active = n.active

/-- A machine under another name. -/
def rename (m : Machine) (name : String) (verbose : Bool) : Machine := { m with name, verbose }

/-- A machine that matches another is the other one under its own name. -/
private theorem Matches.eq_rename {m n : Machine} (h : m.Matches n) :
    m = n.rename m.name m.verbose := by
  obtain ⟨htape, hip, hbase, hticks, hactive⟩ := h
  cases m
  cases n
  simp_all [rename]

/-- A machine matches itself under any name. -/
theorem matches_rename (m : Machine) (name : String) (verbose : Bool) :
    (m.rename name verbose).Matches m :=
  ⟨rfl, rfl, rfl, rfl, rfl⟩

/-- What an instruction does to a machine does not depend on its name. -/
theorem execute_rename (m : Machine) (name : String) (verbose : Bool) (word : Word)
    (inputs : List Word) :
    (m.rename name verbose).execute word inputs =
      { m.execute word inputs with
        machine := (m.execute word inputs).machine.rename name verbose } := by
  have heffect (op : Opcode) :
      (m.rename name verbose).effect word inputs op = m.effect word inputs op := by
    cases op <;> rfl
  have happly (next : Word) (e : Effect) :
      (m.rename name verbose).apply next e =
        ((m.apply next e).1.rename name verbose, (m.apply next e).2) := by
    cases e <;> rfl
  unfold execute
  dsimp only
  cases Opcode.ofNumber? (Instruction.opDigits word) with
  | none => rfl
  | some op =>
    dsimp only
    rw [heffect]
    cases m.effect word inputs op with
    | error failure => rfl
    | ok e =>
      dsimp only
      rw [happly]
      rfl

/-- An instruction has nothing to do with the name. -/
private theorem tick_rename (m : Machine) (name : String) (verbose : Bool) (inputs : List Word) :
    (m.rename name verbose).tick inputs =
      { m.tick inputs with machine := (m.tick inputs).machine.rename name verbose } := by
  have hread : (m.rename name verbose).tape.read? (m.rename name verbose).ip =
      m.tape.read? m.ip := rfl
  unfold tick
  rw [hread]
  change (if m.active = true then _ else _) = _
  by_cases hactive : m.active = true
  · rw [if_pos hactive, if_pos hactive]
    cases m.tape.read? m.ip with
    | none => rfl
    | some word => exact execute_rename m name verbose word inputs
  · rw [if_neg hactive, if_neg hactive]

/-- A run does not depend on the name of the machine either. -/
theorem resume_rename (m : Machine) (name : String) (verbose : Bool) (bound : Nat)
    (inputs : List Word) :
    (m.rename name verbose).resume bound inputs =
      (m.resume bound inputs).map fun stop =>
        { stop with machine := stop.machine.rename name verbose } := by
  induction bound generalizing m inputs with
  | zero => rfl
  | succ bound ih =>
    unfold resume
    rw [tick_rename]
    obtain ⟨result, next, left⟩ := m.tick inputs
    rcases result with e | event
    · rfl
    · cases event with
      | ran => exact ih next left
      | output value => rfl
      | halted => rfl

/-- The machine gives these values, one after the other, when it is resumed with the same
inputs each time. -/
inductive Gives (inputs : List Word) : Machine → List Word → Prop where
  | nil (m : Machine) : Gives inputs m []
  | cons {m next : Machine} {bound : Nat} {value : Word} {left values : List Word}
    (hresume : m.resume bound inputs = some ⟨.ok (some value), next, left⟩)
    (hrest : Gives inputs next values) : Gives inputs m (value :: values)

end Machine

namespace Channel

/-- A channel that gives the same values again and again. -/
inductive Replays : Channel → List Word → Prop where
  | fixed (values : List Word) : Replays (.fixed values) values
  | text (t : TextChannel) : Replays (.text t) t.load.values

/-- A channel whose input text is read. -/
def loaded : Channel → Channel
  | text t => text t.load
  | c => c

/-- A channel takes these values one after the other. -/
def Takes : Channel → List Word → Prop
  | _, [] => True
  | c, value :: values => c.refusal? = none ∧ (c.accept value).Takes values

/-- A channel that took values one after the other. -/
def acceptAll (c : Channel) (values : List Word) : Channel :=
  values.foldl (fun c value => c.accept value) c

/-- What is collected from a channel that replays inputs is these inputs. -/
theorem Replays.collect_eq {c : Channel} {inputs : List Word} (h : c.Replays inputs) :
    c.collect = (inputs, c.loaded) := by
  cases h with
  | fixed => rfl
  | text t => rfl

/-- A text is loaded once. -/
theorem load_load (t : TextChannel) : t.load.load = t.load := by
  obtain ⟨input, intake, sink⟩ := t
  cases intake with
  | none => rfl
  | some intake => rfl

/-- A channel replays the same inputs once it is loaded. -/
theorem Replays.loaded {c : Channel} {inputs : List Word} (h : c.Replays inputs) :
    c.loaded.Replays inputs := by
  cases h with
  | fixed => exact .fixed inputs
  | text t =>
    have hloaded := Replays.text t.load
    rwa [load_load] at hloaded

/-- What a channel replays does not depend on what it was sent. -/
theorem Replays.accept {c : Channel} {inputs : List Word} (h : c.Replays inputs) (value : Word) :
    (c.accept value).Replays inputs := by
  cases h with
  | fixed => exact .fixed inputs
  | text t =>
    have hvalues : (t.write value).load.values = t.load.values := by
      obtain ⟨input, intake, sink⟩ := t
      cases intake with
      | none => rfl
      | some intake => rfl
    exact hvalues ▸ Replays.text (t.write value)

/-- A channel replays the same inputs once it is rewound. -/
theorem Replays.rewind {c : Channel} {inputs : List Word} (h : c.Replays inputs) :
    c.rewind.Replays inputs := by
  cases h with
  | fixed => exact .fixed inputs
  | text t => exact .text t

/-- A channel is loaded once. -/
@[simp]
private theorem loaded_loaded (c : Channel) : c.loaded.loaded = c.loaded := by
  cases c with
  | text t => exact congrArg Channel.text (load_load t)
  | fixed values => rfl
  | queue q => rfl

/-- It makes no difference whether a channel is loaded before or after it accepts a value. -/
theorem loaded_accept (c : Channel) (value : Word) :
    (c.accept value).loaded = c.loaded.accept value := by
  cases c with
  | fixed values => rfl
  | queue q => rfl
  | text t =>
    obtain ⟨input, intake, sink⟩ := t
    cases intake with
    | none => rfl
    | some intake => rfl

/-- Loading makes no difference to what a channel refuses. -/
@[simp]
theorem refusal?_loaded (c : Channel) : c.loaded.refusal? = c.refusal? := by
  cases c with
  | fixed values => rfl
  | queue q => rfl
  | text t =>
    obtain ⟨input, intake, sink⟩ := t
    cases intake with
    | none => rfl
    | some intake => rfl

/-- Whether its input text was read makes no difference to what a channel takes. -/
private theorem takes_of_loaded_eq {c d : Channel} (h : c.loaded = d.loaded) {values : List Word} :
    c.Takes values → d.Takes values := by
  induction values generalizing c d with
  | nil => exact id
  | cons value values ih =>
    rintro ⟨hopen, hrest⟩
    refine ⟨?_, ih ?_ hrest⟩
    · rw [← refusal?_loaded, ← h, refusal?_loaded, hopen]
    · rw [loaded_accept, loaded_accept, h]

/-- It makes no difference whether a channel is loaded before or after it accepts values. -/
theorem loaded_acceptAll (c : Channel) (values : List Word) :
    (c.acceptAll values).loaded = c.loaded.acceptAll values := by
  induction values generalizing c with
  | nil => rfl
  | cons value values ih =>
    have hrest := ih (c.accept value)
    rwa [loaded_accept] at hrest

/-- A text channel whose sink refuses nothing takes everything. -/
theorem takes_text {t : TextChannel} (hsink : t.sink.failure = none) (values : List Word) :
    (Channel.text t).Takes values := by
  induction values generalizing t with
  | nil => exact trivial
  | cons value values ih =>
    refine ⟨?_, ih hsink⟩
    simp [refusal?, hsink]

end Channel

namespace Emulator

/-- Ticks until the machine halts, a tick fails or the limit is reached, and tells how each
tick went. -/
def ticks : (bound : Nat) → (limit : Option Nat) → Emulator →
    Option (List (Except RuntimeError Bool) × Emulator)
  | 0, _, _ => none
  | bound + 1, limit, emu =>
    match emu.tick (bound + 1) with
    | none => none
    | some (.error e, emu) => some ([.error e], emu)
    | some (.ok true, emu) => some ([.ok true], emu)
    | some (.ok false, emu) =>
      if limit.any (· ≤ 1) then some ([.ok false], emu)
      else
        (ticks bound (limit.map (· - 1)) emu).map fun rest => (.ok false :: rest.1, rest.2)

/-- The error that ended a number of ticks. -/
def endingError (results : List (Except RuntimeError Bool)) : Option RuntimeError :=
  match results.getLast? with
  | some (.error e) => some e
  | _ => none

/-- The error at the end is that of the last results. -/
private theorem endingError_cons {results : List (Except RuntimeError Bool)} (hne : results ≠ [])
    (first : Except RuntimeError Bool) : endingError (first :: results) = endingError results := by
  unfold endingError
  rw [List.getLast?_cons_of_ne_nil hne]

/-- Ticks that end at all have a result. -/
theorem ticks_ne_nil {bound : Nat} {limit : Option Nat} {emu after : Emulator}
    {results : List (Except RuntimeError Bool)}
    (hticks : emu.ticks bound limit = some (results, after)) : results ≠ [] := by
  cases bound with
  | zero => cases hticks
  | succ bound =>
    unfold ticks at hticks
    split at hticks
    · cases hticks
    · cases hticks
      exact List.cons_ne_nil _ _
    · cases hticks
      exact List.cons_ne_nil _ _
    · split at hticks
      · cases hticks
        exact List.cons_ne_nil _ _
      · obtain ⟨rest, _, hrest⟩ := Option.map_eq_some_iff.mp hticks
        cases hrest
        exact List.cons_ne_nil _ _

/-- A run is made of ticks without a limit. -/
theorem run_eq_ticks (bound : Nat) (emu : Emulator) :
    emu.run bound = (emu.ticks bound none).map fun r => (endingError r.1, r.2) := by
  induction bound generalizing emu with
  | zero => rfl
  | succ bound ih =>
    unfold run ticks
    cases emu.tick (bound + 1) with
    | none => rfl
    | some r =>
      obtain ⟨result, after⟩ := r
      rcases result with e | done
      · rfl
      · cases done with
        | true => rfl
        | false =>
          simp only [Option.any_none, Bool.false_eq_true, if_false, Option.map_none, ih,
            Option.map_map]
          cases hticks : after.ticks bound none with
          | none => rfl
          | some rest => 
            simp [Function.comp, endingError_cons (ticks_ne_nil hticks)]

/-- How the steps of `outputs` ended, as a tick tells it. There is nothing to tell if they
were broken off at the limit. -/
def ending (emu : Emulator) (limit : Option Nat) (o : Machine.Outputs) :
    List (Except RuntimeError Bool) :=
  match o.error with
  | some e => [.error (emu.failure (errorAddress o.machine e) (.machine e))]
  | none => if limit = some o.values.length then [] else [.ok true]

/-- The ticks of an emulator went as the steps of `outputs` did: each value was sent, the
end was reported as what it is, and the machines agree behind it. -/
structure InStep (emu : Emulator) (limit : Option Nat)
    (r : List (Except RuntimeError Bool) × Emulator) (o : Machine.Outputs) : Prop where
  results : r.1 = o.values.map (fun _ => .ok false) ++ emu.ending limit o
  sent : r.2.outputChannel.loaded = (emu.outputChannel.acceptAll o.values).loaded
  produced : r.2.produced = emu.produced + o.values.length
  machine : r.2.machine.Matches o.machine

/-- The emulator once its machine stopped, before the result is delivered. -/
def stopped (emu : Emulator) (m : Machine) : Emulator :=
  { emu with machine := m.rename emu.machine.name emu.verbose, input := emu.input.loaded }

/-- A tick resumes the machine with what the input channel replays. -/
theorem tick_eq {emu : Emulator} {m : Machine} {inputs : List Word}
    (hmachine : emu.machine.Matches m) (hinput : emu.input.Replays inputs) (bound : Nat) :
    emu.tick bound = (m.resume bound inputs).map fun stop =>
      (emu.stopped stop.machine).deliver stop.result := by
  have hverbose : { emu.machine with verbose := emu.verbose } =
      m.rename emu.machine.name emu.verbose := by
    rw [hmachine.eq_rename]
    rfl
  have htaken : emu.takeInput = (inputs, emu.stopped m) := by
    simp only [takeInput, hinput.collect_eq, hverbose, stopped]
  unfold tick
  rw [htaken]
  simp only [stopped, Machine.resume_rename]
  cases m.resume bound inputs with
  | none => rfl
  | some stop => rfl

/-- A value that the output channel takes is counted and sent. -/
theorem deliver_output {emu : Emulator} (value : Word)
    (hopen : emu.outputChannel.refusal? = none) :
    ∃ after, emu.deliver (.ok (some value)) = (.ok false, after) ∧
      after.machine = emu.machine ∧ after.listing = emu.listing ∧
      after.produced = emu.produced + 1 ∧
      after.outputChannel = emu.outputChannel.accept value ∧
      (after.input = emu.input ∨ after.input = emu.input.accept value) := by
  obtain ⟨verbose, machine, listing, image, input, output, produced⟩ := emu
  cases output with
  | none =>
    have hsend : input.send value = (none, input.accept value) := by
      have hopen' : input.refusal? = none := hopen
      rw [Channel.send, hopen']
    refine ⟨⟨verbose, machine, listing, image, input.accept value, none, produced + 1⟩, ?_, rfl,
      rfl, rfl, rfl, .inr rfl⟩
    simp only [deliver, sendOutput, onOutput, hsend]
  | some c =>
    have hsend : c.send value = (none, c.accept value) := by
      have hopen' : c.refusal? = none := hopen
      rw [Channel.send, hopen']
    refine ⟨⟨verbose, machine, listing, image, input, some (c.accept value), produced + 1⟩, ?_, rfl,
      rfl, rfl, rfl, .inl rfl⟩
    simp only [deliver, sendOutput, onOutput, hsend]

/-- A stop makes no difference to the output channel, up to its loading. -/
theorem loaded_outputChannel_stopped (emu : Emulator) (m : Machine) :
    (emu.stopped m).outputChannel.loaded = emu.outputChannel.loaded := by
  obtain ⟨verbose, machine, listing, image, input, output, produced⟩ := emu
  cases output with
  | none => exact Channel.loaded_loaded input
  | some c => rfl

/-- A machine that failed or halted ends the ticks as it ends `outputs`. -/
theorem inStep_of_error (emu : Emulator) (limit : Option Nat) (m : Machine) (e : MachineError) :
    emu.InStep limit
      ([((emu.stopped m).deliver (.error e)).1], ((emu.stopped m).deliver (.error e)).2)
      ⟨[], some e, m⟩ where
  results := by
    have haddress : errorAddress (emu.stopped m).machine e = errorAddress m e := by
      cases e <;> rfl
    simp only [deliver, haddress]
    rfl
  sent := loaded_outputChannel_stopped emu m
  produced := rfl
  machine := Machine.matches_rename m _ _

/-- A machine that halts ends both runs. -/
private theorem inStep_of_halt (emu : Emulator) {limit : Option Nat} (hlimit : limit ≠ some 0)
    (m : Machine) : emu.InStep limit ([.ok true], emu.stopped m) ⟨[], none, m⟩ where
  results := by simp [ending, hlimit]
  sent := loaded_outputChannel_stopped emu m
  produced := rfl
  machine := Machine.matches_rename m _ _

/-- A tick that sends a value, before ticks that are in step. -/
theorem InStep.cons {emu after : Emulator} {limit : Option Nat} {value : Word}
    {r : List (Except RuntimeError Bool) × Emulator} {o : Machine.Outputs}
    (hnext : after.InStep (limit.map (· - 1)) r o) (hlimit : ¬ limit.any (· ≤ 1) = true)
    (hlisting : after.listing = emu.listing) (hproduced : after.produced = emu.produced + 1)
    (hchannel : after.outputChannel.loaded = (emu.outputChannel.accept value).loaded) :
    emu.InStep limit (.ok false :: r.1, r.2) { o with values := value :: o.values } where
  results := by
    have hending : emu.ending limit { o with values := value :: o.values } =
        after.ending (limit.map (· - 1)) o := by
      unfold ending
      cases o.error with
      | some e => simp only [failure, lineOf, hlisting]
      | none =>
        -- The limit counts the value, and was not reached by it.
        cases limit with
        | none => rfl
        | some n =>
          have hn : 1 < n := by simpa using hlimit
          have hiff : n = o.values.length + 1 ↔ n - 1 = o.values.length := by omega
          simp [hiff]
    rw [hending, List.map_cons, List.cons_append, ← hnext.results]
  sent := by
    rw [hnext.sent, Channel.loaded_acceptAll, hchannel, ← Channel.loaded_acceptAll]
    rfl
  produced := by
    rw [hnext.produced, hproduced, List.length_cons]
    omega
  machine := hnext.machine

/-- The ticks of an emulator are the steps of `outputs`. -/
theorem inStep_ticks {emu : Emulator} {m : Machine} {inputs : List Word}
    (hmachine : emu.machine.Matches m) (hinput : emu.input.Replays inputs)
    (houtput : ∀ values, m.Gives inputs values → emu.outputChannel.Takes values) (bound : Nat)
    {limit : Option Nat} (hlimit : limit ≠ some 0) :
    Option.Rel (emu.InStep limit) (emu.ticks bound limit) (m.outputs bound limit inputs) := by
  induction bound generalizing emu m limit with
  | zero => exact .none
  | succ bound ih =>
    unfold ticks Machine.outputs
    rw [tick_eq hmachine hinput]
    cases hresume : m.resume (bound + 1) inputs with
    | none => exact .none
    | some stop =>
      obtain ⟨result, next, left⟩ := stop
      rcases result with e | output
      · exact .some (inStep_of_error emu limit next e)
      cases output with
      | none => exact .some (inStep_of_halt emu hlimit next)
      | some value =>
        have hsame := loaded_outputChannel_stopped emu next
        have hopen : (emu.stopped next).outputChannel.refusal? = none := by
          have htakes := houtput [value] (.cons hresume (.nil next))
          rw [← Channel.refusal?_loaded, hsame, Channel.refusal?_loaded]
          exact htakes.1
        obtain ⟨after, hdeliver, hafter, hlisting, hproduced, hchannel, hinput'⟩ :=
          deliver_output value hopen
        have hloaded : after.outputChannel.loaded = (emu.outputChannel.accept value).loaded := by
          rw [hchannel, Channel.loaded_accept, hsame, Channel.loaded_accept]
        have hmatches : after.machine.Matches next := hafter ▸ Machine.matches_rename next _ _
        simp only [Option.map_some, hdeliver]
        by_cases hlast : limit.any (· ≤ 1) = true
        · rw [if_pos hlast, if_pos hlast]
          have hone : limit = some 1 := by
            cases limit with
            | none => simp at hlast
            | some n =>
              have hn : n ≤ 1 := by simpa using hlast
              have hne : n ≠ 0 := fun h => hlimit (congrArg some h)
              exact congrArg some (by omega)
          refine .some ⟨?_, hloaded, hproduced, hmatches⟩
          simp [ending, hone]
        · rw [if_neg hlast, if_neg hlast]
          have hreplays : after.input.Replays inputs := by
            rcases hinput' with h | h
            · exact h ▸ hinput.loaded
            · exact h ▸ hinput.loaded.accept value
          have htakes (values : List Word) (hgives : next.Gives inputs values) :
              after.outputChannel.Takes values :=
            Channel.takes_of_loaded_eq hloaded.symm
              (houtput (value :: values) (.cons hresume hgives)).2
          have hrest : limit.map (· - 1) ≠ some 0 := by
            cases limit with
            | none => simp
            | some n =>
              have hn : 1 < n := by simpa using hlast
              simp only [Option.map_some, ne_eq, Option.some.injEq]
              omega
          have hnext := ih hmatches hreplays htakes hrest
          generalize after.ticks bound _ = r at hnext ⊢
          generalize next.outputs bound _ inputs = o at hnext ⊢
          cases hnext with
          | none => exact .none
          | some hnext => exact .some (hnext.cons hlast hlisting hproduced hloaded)

/-- The error of a run in step is the one that ended `outputs`. -/
theorem InStep.endingError_eq {emu : Emulator} {r : List (Except RuntimeError Bool) × Emulator}
    {o : Machine.Outputs} (h : emu.InStep none r o) :
    endingError r.1 =
      o.error.map fun e => emu.failure (errorAddress o.machine e) (.machine e) := by
  rw [h.results, endingError, ending]
  cases o.error with
  | some e => simp
  | none => simp

/-- A reset loads the program and rewinds the channels. -/
theorem reset_eq_ok {emu : Emulator} (hprogram : emu.program ≠ #[]) (name : String) :
    ∃ started, emu.reset = .ok started ∧ started.produced = 0 ∧
      started.outputChannel = emu.outputChannel.rewind ∧ started.input = emu.input.rewind ∧
      started.machine.Matches (Machine.ofImage name emu.program).reset := by
  have hsome : ¬ emu.program.isEmpty = true := by simpa using hprogram
  unfold reset
  dsimp only
  rw [if_neg hsome]
  refine ⟨_, rfl, rfl, ?_, rfl, ⟨rfl, rfl, rfl, rfl, rfl⟩⟩
  unfold outputChannel
  cases emu.output with
  | none => rfl
  | some c => rfl

/-- The emulator drives its machine as `outputs` does. Let it have a program, an input
channel that replays values, and an output channel that takes all that the machine gives.
Then it can be reset, and any number of ticks from there on goes as so many steps of
`outputs` on a fresh machine: the same values are sent, a halt is reported as the end and a
failure as an error with this cause, and the machines agree. A run ends without an error
exactly when `outputs` does, and has then sent its values in order. -/
theorem inStep_of_reset (emu : Emulator) (name : String) (inputs : List Word)
    (hprogram : emu.program ≠ #[]) (hinput : emu.input.Replays inputs)
    (houtput : ∀ values, (Machine.ofImage name emu.program).reset.Gives inputs values →
      emu.outputChannel.rewind.Takes values) :
    let m := (Machine.ofImage name emu.program).reset
    ∃ started, emu.reset = .ok started ∧ started.produced = 0 ∧
      started.outputChannel = emu.outputChannel.rewind ∧ started.machine.Matches m ∧
      (∀ bound n, Option.Rel (started.InStep (some (n + 1))) (started.ticks bound (some (n + 1)))
        (m.outputs bound (some (n + 1)) inputs)) ∧
      ∀ bound, Option.Rel
        (fun r o =>
          r.1 = o.error.map (fun e => started.failure (errorAddress o.machine e) (.machine e)) ∧
          r.2.outputChannel.loaded = (started.outputChannel.acceptAll o.values).loaded ∧
          r.2.produced = o.values.length ∧ r.2.machine.Matches o.machine)
        (started.run bound) (m.outputs bound none inputs) := by
  intro m
  obtain ⟨started, hreset, hproduced, hchannel, hrewound, hmachine⟩ := reset_eq_ok hprogram name
  have hreplays : started.input.Replays inputs := hrewound ▸ hinput.rewind
  have htakes (values : List Word) (hgives : m.Gives inputs values) :
      started.outputChannel.Takes values := hchannel ▸ houtput values hgives
  refine ⟨started, hreset, hproduced, hchannel, hmachine, fun bound n => ?_, fun bound => ?_⟩
  · exact inStep_ticks hmachine hreplays htakes bound (by simp)
  · have hsteps : Option.Rel (started.InStep none) (started.ticks bound none)
        (m.outputs bound none inputs) :=
      inStep_ticks hmachine hreplays htakes bound (by simp)
    rw [run_eq_ticks]
    generalize started.ticks bound none = r at hsteps ⊢
    generalize m.outputs bound none inputs = o at hsteps ⊢
    cases hsteps with
    | none => exact .none
    | some h =>
      refine .some ⟨h.endingError_eq, h.sent, ?_, h.machine⟩
      rw [h.produced, hproduced, Nat.zero_add]

/-- An emulator that puts its input out again and then the number five, with one text channel
for both. -/
theorem inStep_of_reset_echo :
    let t : TextChannel := { intake := some { values := [7] } }
    let emu : Emulator := { image := #[3, 0, 4, 0, 104, 5, 99], input := .text t, output := none }
    emu.program ≠ #[] ∧ emu.input.Replays [7] ∧
      ∃ started r, emu.reset = .ok started ∧ started.run 9 = some r ∧ r.1 = none ∧
        r.2.produced = 2 ∧
        r.2.outputChannel.loaded = (Channel.text t).acceptAll [7, 5] := by
  intro t emu
  have hprogram : emu.program ≠ #[] := by decide
  have hinput : emu.input.Replays [7] := .text t
  have hrun : ((Machine.ofImage "A" emu.program).reset.outputs 9 none [7]).map
      (fun o => (o.values, o.error)) = some ([7, 5], none) := by decide
  obtain ⟨started, hreset, _, hchannel, _, _, hruns⟩ :=
    inStep_of_reset emu "A" [7] hprogram hinput fun values _ => Channel.takes_text rfl values
  refine ⟨hprogram, hinput, started, ?_⟩
  have hend := hruns 9
  generalize started.run 9 = r at hend
  generalize (Machine.ofImage "A" emu.program).reset.outputs 9 none [7] = o at hend hrun
  cases hend with
  | none => cases hrun
  | @some r o h =>
    obtain ⟨herror, hsent, hproduced, _⟩ := h
    have hvalues : o.values = [7, 5] := by simp_all
    have hnone : o.error = none := by simp_all
    refine ⟨r, hreset, rfl, ?_, ?_, ?_⟩
    · rw [herror, hnone, Option.map_none]
    · rw [hproduced, hvalues]
      rfl
    · rw [hsent, hchannel, hvalues]
      rfl

end Emulator

end TapeMachine
