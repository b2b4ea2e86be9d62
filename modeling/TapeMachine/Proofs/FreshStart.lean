import TapeMachine.Machine.Run
import TapeMachine.Proofs.Execution
import TapeMachine.Proofs.TapeMemory

/-!
# Starting over

Whatever a machine does, its image stays what it was, since writes go to other parts of
the tape. A reset depends on the image only. So it leads to the same machine at any time,
also when an instruction failed, when the program changed itself, or when outputs were
not taken to their end.
-/

namespace TapeMachine

/-- Whether a tape takes a change. -/
def Tape.takes (t : Tape) : Change → Bool
  | .write addr value => (t.write? addr value).isSome
  | .reset => true

/-- A write makes no difference to a reset. -/
@[simp]
private theorem Tape.reset_set (t : Tape) (a : Nat) (value : Word) :
    (t.set a value).reset = t.reset := by
  unfold Tape.reset
  rw [Tape.baseline_set]

/-- A change makes no difference to a reset. -/
@[simp]
private theorem Tape.reset_change (t : Tape) (c : Change) : (t.change c).reset = t.reset := by
  unfold Tape.reset
  rw [Tape.baseline_change]

namespace Machine

/-! ## Operations -/

/-- Something that is done with a machine. What may run forever has a bound on the number
of its instructions. -/
inductive Operation where
  | tick (inputs : List Word)
  | resume (bound : Nat) (inputs : List Word)
  | start (bound : Nat) (inputs : List Word)
  | run (bound : Nat) (inputs : List Word) (force : Bool)
  /-- Outputs are taken one by one, up to a limit. -/
  | outputs (bound : Nat) (limit : Option Nat) (inputs : List Word)
  | stop
  | reset
  /-- The tape is changed directly. -/
  | change (c : Tape.Change)
  deriving DecidableEq, Repr

/-- What an operation returns. -/
inductive Answer where
  | ticked (result : Except MachineError Event) (left : List Word)
  | stopped (result : Except MachineError (Option Word)) (left : List Word)
  | gave (values : List Word) (error : Option MachineError)
  /-- Whether the tape took the change. -/
  | changed (done : Bool)
  | silent
  deriving DecidableEq

/-- Does something with a machine. There is no answer if the bound is too small. -/
def perform (m : Machine) : Operation → Option (Answer × Machine)
  | .tick inputs =>
    let t := m.tick inputs
    some (.ticked t.result t.inputs, t.machine)
  | .resume bound inputs =>
    (m.resume bound inputs).map fun s => (.stopped s.result s.inputs, s.machine)
  | .start bound inputs =>
    (m.start bound inputs).map fun s => (.stopped s.result s.inputs, s.machine)
  | .run bound inputs force =>
    (m.run bound inputs force).map fun s => (.stopped s.result s.inputs, s.machine)
  | .outputs bound limit inputs =>
    (m.outputs bound limit inputs).map fun o => (.gave o.values o.error, o.machine)
  | .stop => some (.silent, m.stop)
  | .reset => some (.silent, m.reset)
  | .change c => some (.changed (m.tape.takes c), { m with tape := m.tape.change c })

/-- Does one thing after the other. -/
def performAll (m : Machine) : List Operation → Option (List Answer × Machine)
  | [] => some ([], m)
  | op :: ops =>
    (m.perform op).bind fun r =>
      (performAll r.2 ops).map fun rest => (r.1 :: rest.1, rest.2)

/-! ## A reset is the same at any time -/

/-- A second reset makes no difference. -/
@[simp]
theorem reset_reset (m : Machine) : m.reset.reset = m.reset := rfl

/-- A reset depends on the tape, and of this on the image only. -/
theorem reset_congr {m n : Machine} (hname : n.name = m.name) (hverbose : n.verbose = m.verbose)
    (htape : n.tape.reset = m.tape.reset) : n.reset = m.reset := by
  unfold reset
  rw [hname, hverbose, htape]

/-- An effect makes no difference to a reset. -/
private theorem reset_apply (m : Machine) (next : Word) (e : Effect) :
    (m.apply next e).1.reset = m.reset := by
  cases e with
  | store a value =>
    exact reset_congr rfl rfl (Tape.reset_set m.tape a value)
  | emit value => rfl
  | jump target => rfl
  | proceed => rfl
  | rebase offset => rfl
  | halt => rfl

/-- An instruction makes no difference to a reset. -/
private theorem reset_execute (m : Machine) (word : Word) (inputs : List Word) :
    (m.execute word inputs).machine.reset = m.reset := by
  cases hop : Opcode.ofNumber? (Instruction.opDigits word) with
  | none =>
    rw [execute_of_none hop]
    rfl
  | some op =>
    rw [execute_of_some hop]
    cases m.effect word inputs op with
    | error failure => rfl
    | ok e => exact reset_apply m _ e

/-- An instruction does not change what a reset brings back, also if it fails. -/
theorem reset_tick (m : Machine) (inputs : List Word) :
    (m.tick inputs).machine.reset = m.reset := by
  unfold tick
  by_cases hactive : m.active = true
  · rw [if_pos hactive]
    cases m.tape.read? m.ip with
    | none => rfl
    | some word => exact reset_execute m word inputs
  · rw [if_neg hactive]

/-- A run up to an output makes no difference to a reset. -/
theorem reset_resume {bound : Nat} {m : Machine} {inputs : List Word} {s : Stop}
    (hresume : m.resume bound inputs = some s) : s.machine.reset = m.reset := by
  induction bound generalizing m inputs with
  | zero => cases hresume
  | succ bound ih =>
    have htick := reset_tick m inputs
    unfold resume at hresume
    generalize m.tick inputs = t at htick hresume
    obtain ⟨result, next, left⟩ := t
    rcases result with e | event
    · cases hresume
      exact htick
    · cases event with
      | ran => exact (ih hresume).trans htick
      | output value =>
        cases hresume
        exact htick
      | halted =>
        cases hresume
        exact htick

/-- A start makes no difference to a reset. -/
theorem reset_start {bound : Nat} {m : Machine} {inputs : List Word} {s : Stop}
    (hstart : m.start bound inputs = some s) : s.machine.reset = m.reset := by
  unfold start at hstart
  exact (reset_resume hstart).trans (reset_reset m)

/-- A run makes no difference to a reset. -/
private theorem reset_run {bound : Nat} {m : Machine} {inputs : List Word} {force : Bool} {s : Stop}
    (hrun : m.run bound inputs force = some s) : s.machine.reset = m.reset := by
  unfold run at hrun
  by_cases hrefused : (m.active && !force) = true
  · rw [if_pos hrefused] at hrun
    cases hrun
    rfl
  · rw [if_neg hrefused] at hrun
    exact reset_start hrun

/-- A sequence of outputs makes no difference to a reset. -/
private theorem reset_outputs {bound : Nat} {limit : Option Nat} {m : Machine} {inputs : List Word}
    {o : Outputs} (houtputs : m.outputs bound limit inputs = some o) :
    o.machine.reset = m.reset := by
  induction bound generalizing limit m o with
  | zero => cases houtputs
  | succ bound ih =>
    unfold outputs at houtputs
    cases hresume : m.resume (bound + 1) inputs with
    | none =>
      rw [hresume] at houtputs
      cases houtputs
    | some s =>
      have hstop := reset_resume hresume
      rw [hresume] at houtputs
      obtain ⟨result, next, left⟩ := s
      rcases result with e | value
      · cases houtputs
        exact hstop
      · cases value with
        | none =>
          cases houtputs
          exact hstop
        | some value =>
          dsimp only at houtputs
          by_cases hlast : limit.any (· ≤ 1) = true
          · rw [if_pos hlast] at houtputs
            cases houtputs
            exact hstop
          · rw [if_neg hlast] at houtputs
            obtain ⟨rest, hrest, rfl⟩ := Option.map_eq_some_iff.mp houtputs
            exact (ih hrest).trans hstop

/-- Nothing that is done with a machine changes what a reset brings back. -/
theorem reset_perform {m next : Machine} {op : Operation} {answer : Answer}
    (hperform : m.perform op = some (answer, next)) : next.reset = m.reset := by
  cases op with
  | tick inputs =>
    cases hperform
    exact reset_tick m inputs
  | resume bound inputs =>
    obtain ⟨s, hs, hnext⟩ := Option.map_eq_some_iff.mp hperform
    cases hnext
    exact reset_resume hs
  | start bound inputs =>
    obtain ⟨s, hs, hnext⟩ := Option.map_eq_some_iff.mp hperform
    cases hnext
    exact reset_start hs
  | run bound inputs force =>
    obtain ⟨s, hs, hnext⟩ := Option.map_eq_some_iff.mp hperform
    cases hnext
    exact reset_run hs
  | outputs bound limit inputs =>
    obtain ⟨o, ho, hnext⟩ := Option.map_eq_some_iff.mp hperform
    cases hnext
    exact reset_outputs ho
  | stop =>
    cases hperform
    rfl
  | reset =>
    cases hperform
    rfl
  | change c =>
    cases hperform
    exact reset_congr rfl rfl (Tape.reset_change m.tape c)

/-- Operations make no difference to a reset. -/
theorem reset_performAll {m last : Machine} {ops : List Operation} {answers : List Answer}
    (hall : m.performAll ops = some (answers, last)) : last.reset = m.reset := by
  induction ops generalizing m answers with
  | nil =>
    cases hall
    rfl
  | cons op ops ih =>
    obtain ⟨⟨answer, next⟩, hfirst, hrest⟩ := Option.bind_eq_some_iff.mp hall
    obtain ⟨rest, hops, hlast⟩ := Option.map_eq_some_iff.mp hrest
    cases hlast
    exact (ih hops).trans (reset_perform hfirst)

/-- A reset forgets all that happened. After any operations on a machine for an image, it
leaves the registers at zero, the machine active, and a tape that holds the image. So all
operations from there on give the same answers as on a new machine. To start the machine,
or to run it with force, does the same as on a new machine at any time; to run it without
force is refused while it is active. -/
theorem reset_forgets (name : String) (verbose : Bool) (image : Array Word)
    (ops : List Operation) (answers : List Answer) (m : Machine) :
    let new : Machine := { ofImage name image with verbose }
    new.performAll ops = some (answers, m) →
      m.reset.ip = 0 ∧ m.reset.base = 0 ∧ m.reset.ticks = 0 ∧ m.reset.active = true ∧
      m.reset.tape.extent = (Tape.ofImage image).extent ∧
      m.reset.tape.cells = (Tape.ofImage image).cells ∧
      (∀ addr, m.reset.tape.read? addr = (Tape.ofImage image).read? addr) ∧
      (∀ later, m.reset.performAll later = new.reset.performAll later) ∧
      (∀ bound inputs, m.start bound inputs = new.start bound inputs ∧
        m.run bound inputs true = new.run bound inputs true) ∧
      (m.active = true → ∀ bound inputs,
        m.run bound inputs false = some ⟨.error .alreadyActive, m, inputs⟩) := by
  intro new hops
  have hreset : m.reset = new.reset := reset_performAll hops
  have htape : m.reset.tape = Tape.ofImage image := by
    rw [hreset]
    rfl
  have hstart (bound : Nat) (inputs : List Word) :
      m.start bound inputs = new.start bound inputs := by
    unfold start
    rw [hreset]
  refine ⟨rfl, rfl, rfl, rfl, by rw [htape], by rw [htape], by simp [htape], by simp [hreset],
    fun bound inputs => ⟨hstart bound inputs, ?_⟩, fun hactive bound inputs => ?_⟩
  · have hforced (n : Machine) : n.run bound inputs true = n.start bound inputs := by
      unfold run
      rw [Bool.not_true, Bool.and_false, if_neg Bool.false_ne_true]
    rw [hforced, hforced, hstart]
  · unfold run
    rw [hactive]
    rfl

/-- A program that overwrites its first instruction and then fails, after which its tape is
also written to far outside of the image. -/
theorem reset_forgets_fault :
    let image : Array Word := #[1101, 5, 6, 0, 3, -1]
    let new : Machine := ofImage "A" image
    let ops : List Operation :=
      [.reset, .tick [], .tick [9], .change (.write 2000000 7), .resume 5 []]
    ∃ answers m, new.performAll ops = some (answers, m) ∧
      answers = [.silent, .ticked (.ok .ran) [],
        .ticked (.error (.fault ⟨4, 3, .negativeAddress⟩)) [], .changed true,
        .stopped (.error .notActive) []] ∧
      m.tape.read? 0 = some 11 ∧ m.tape.read? 2000000 = some 7 ∧
      m.reset.tape.read? 0 = some 1101 ∧ m.reset.tape.read? 2000000 = some 0 ∧
      m.start 9 [] = new.start 9 [] := by
  intro image new ops
  have hall : (new.performAll ops).map (fun r => (r.1, r.2.tape.read? 0, r.2.tape.read? 2000000)) =
      some ([.silent, .ticked (.ok .ran) [],
        .ticked (.error (.fault ⟨4, 3, .negativeAddress⟩)) [], .changed true,
        .stopped (.error .notActive) []], some 11, some 7) := by decide
  obtain ⟨⟨answers, m⟩, hops, hseen⟩ := Option.map_eq_some_iff.mp hall
  simp only [Prod.mk.injEq] at hseen
  obtain ⟨hanswers, hfirst, hlast⟩ := hseen
  obtain ⟨_, _, _, _, _, _, hread, _, hstart, _⟩ :=
    reset_forgets "A" false image ops answers m hops
  refine ⟨answers, m, hops, hanswers, hfirst, hlast, ?_, ?_, (hstart 9 []).1⟩
  · rw [hread]
    decide
  · rw [hread]
    decide

end Machine

end TapeMachine
