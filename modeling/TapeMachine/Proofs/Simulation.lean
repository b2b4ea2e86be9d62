import TapeMachine.Proofs.Execution
import TapeMachine.Proofs.Parameters

/-!
# The machine over a tape and the plain machine

The machine over a tape examines all parameters of an instruction before it
applies any effect, and the plain machine applies each effect in its place. The
two are led through an instruction together: `Tracks` relates them while the
plain machine is between two parameters, and `Represents` between two
instructions.
-/

namespace TapeMachine

namespace Plain

/-- A plain machine and a machine between two instructions. -/
structure Represents (m : Machine) (s : State) : Prop extends Agrees m s where
  tape : m.tape.WellFormed
  image : ∀ a : Address, m.tape.baseline.getD a 0 = s.image a
  ip : m.ip = s.ip
  active : m.active = s.active

/-- A plain machine while it executes an instruction at which a machine stands. The
machine does not move until the end of the instruction. -/
structure Tracks (m : Machine) (inputs : List Word) (s : State) : Prop extends Agrees m s where
  tape : m.tape.WellFormed
  image : ∀ a : Address, m.tape.baseline.getD a 0 = s.image a
  active : m.active = s.active
  inputs : inputs = s.inputs

/-- The report of an event. -/
def Report.of : Machine.Event → Report
  | .ran => {}
  | .output value => { output := true, value }
  | .halted => { halted := true }

/-- An instruction went the same way on both machines: with the same report or the
same failure, the same inputs left, and states that still correspond. -/
structure Simulates (t : Machine.Tick) (r : Except MachineError Report × State) : Prop where
  result : t.result.map Report.of = r.1
  inputs : t.inputs = r.2.inputs
  represents : Represents t.machine r.2

/-- The instruction pointer has no part in what is tracked. -/
theorem Tracks.past {m : Machine} {inputs : List Word} {s : State} (h : Tracks m inputs s)
    (start : Word) (n : Nat) : Tracks m inputs (s.past start n) :=
  ⟨h.toAgrees.past start n, h.tape, h.image, h.active, h.inputs⟩

/-! ## Instructions -/

section Instructions

variable {m : Machine} {inputs : List Word} {s : State}

/-- Both machines fail alike if the plain machine is past what was examined. -/
theorem Tracks.simulates_faulted (h : Tracks m inputs s) (word : Word) {failure : Machine.Failure}
    (hip : s.ip = m.ip + 1 + Int64.ofNat failure.examined) :
    Simulates (m.faulted word failure inputs) (conclude m.ip word (.error failure.cause s)) :=
  ⟨rfl, h.inputs, ⟨h.memory, h.base⟩, h.tape, h.image, hip.symm, rfl⟩

/-- A parameter is examined and passed. What follows needs to be shown only for its
value. -/
theorem Tracks.operand_bind (h : Tracks m inputs s) {word next : Word} {n : Nat} (hn : 1 ≤ n)
    (hn' : n ≤ 3) {examine : Word → Except Machine.Failure Machine.Effect}
    {follow : Word → Exec Report}
    (hfollow : ∀ x, Simulates (m.conclude word next inputs (examine x))
      (conclude m.ip word ((follow x).run (s.past m.ip n)))) :
    Simulates (m.conclude word next inputs (m.load word n >>= examine))
      (conclude m.ip word ((operand m.ip word n >>= follow).run s)) := by
  rw [EStateM.run_bind, run_operand h.toAgrees word hn hn']
  cases hload : m.load word n with
  | error failure =>
    apply (h.past m.ip n).simulates_faulted word
    rw [State.ip_past, Machine.examined_of_load hload]
  | ok x => exact hfollow x

/-- The last parameter is a destination, and a value is stored there. -/
theorem Tracks.simulates_store (h : Tracks m inputs s) (word : Word) {n : Nat} (hn : 1 ≤ n)
    (hn' : n ≤ 3) (value : Word) :
    Simulates
      (m.conclude word (m.ip + 1 + Int64.ofNat n) inputs (do
        let a ← m.destination word n
        return .store a value))
      (conclude m.ip word ((do
        store m.ip word n value
        return {} : Exec Report).run s)) := by
  have hpast := h.past m.ip n
  rw [EStateM.run_bind, ← State.ip_past s m.ip n]
  cases hdestination : m.destination word n with
  | error failure =>
    rw [run_store_of_error h.toAgrees hn hn' hdestination]
    apply hpast.simulates_faulted word
    rw [State.ip_past, Machine.examined_of_destination hdestination]
  | ok a =>
    obtain ⟨ha, hstore⟩ := run_store_of_ok h.toAgrees hn hn' hdestination value
    rw [hstore]
    have hmemory (b : Address) := h.get_set h.tape ha value b
    have himage (b : Address) : (m.tape.set a value).baseline.getD b 0 = s.image b := by
      rw [Tape.baseline_set, h.image b]
    exact ⟨rfl, h.inputs, ⟨hmemory, h.base⟩, h.tape.set a value, himage, rfl, h.active⟩

/-- Instructions that store what they make of two operands. -/
theorem Tracks.simulates_combine (h : Tracks m inputs s) (word : Word) {g : Word → Word → Word}
    {f : Int → Int → Word} (hf : ∀ x y, g x y = f x.toInt y.toInt) :
    Simulates (m.conclude word (m.ip + 1 + Int64.ofNat 3) inputs (m.combine word g))
      (conclude m.ip word ((combine m.ip word f).run s)) := by
  have h₁ := h.past m.ip 1
  have h₂ := h₁.past m.ip 2
  refine h.operand_bind (by decide) (by decide) fun x => ?_
  refine h₁.operand_bind (by decide) (by decide) fun y => ?_
  rw [hf]
  exact h₂.simulates_store word (by decide) (by decide) (f x.toInt y.toInt)

/-- Instructions that may jump. -/
theorem Tracks.simulates_jump (h : Tracks m inputs s) (word : Word) {test : Word → Bool}
    {taken : Int → Bool} (htest : ∀ x, test x = taken x.toInt) :
    Simulates (m.conclude word (m.ip + 1 + Int64.ofNat 2) inputs (m.branch word test))
      (conclude m.ip word ((jump m.ip word taken).run s)) := by
  have h₁ := h.past m.ip 1
  have h₂ := h₁.past m.ip 2
  refine h.operand_bind (by decide) (by decide) fun x => ?_
  refine h₁.operand_bind (by decide) (by decide) fun target => ?_
  rw [htest, ← State.ip_past (s.past m.ip 1) m.ip 2]
  cases taken x.toInt <;>
    exact ⟨rfl, h₂.inputs, ⟨h₂.memory, h₂.base⟩, h₂.tape, h₂.image, rfl, h₂.active⟩

/-- The instruction that gives an output. -/
theorem Tracks.simulates_output (h : Tracks m inputs s) (word : Word) :
    Simulates
      (m.conclude word (m.ip + 1 + Int64.ofNat 1) inputs (m.effect word inputs .output))
      (conclude m.ip word ((do
        let value ← operand m.ip word 1
        return { output := true, value } : Exec Report).run s)) := by
  have h₁ := h.past m.ip 1
  refine h.operand_bind (by decide) (by decide) fun value => ?_
  rw [← State.ip_past s m.ip 1]
  exact ⟨rfl, h₁.inputs, ⟨h₁.memory, h₁.base⟩, h₁.tape, h₁.image, rfl, h₁.active⟩

/-- The instruction that moves the relative base. -/
theorem Tracks.simulates_rebase (h : Tracks m inputs s) (word : Word) :
    Simulates
      (m.conclude word (m.ip + 1 + Int64.ofNat 1) inputs (m.effect word inputs .adjustBase))
      (conclude m.ip word ((do
        let offset ← operand m.ip word 1
        modify fun s => { s with base := wrap (s.base.toInt + offset.toInt) }
        return {} : Exec Report).run s)) := by
  have h₁ := h.past m.ip 1
  refine h.operand_bind (by decide) (by decide) fun offset => ?_
  have hbase : m.base + offset = wrap ((s.past m.ip 1).base.toInt + offset.toInt) := by
    rw [wrap_add_toInt, h₁.base]
  rw [← State.ip_past s m.ip 1]
  exact ⟨rfl, h₁.inputs, ⟨h₁.memory, hbase⟩, h₁.tape, h₁.image, rfl, h₁.active⟩

/-- The instruction that takes an input. The value is taken even if the destination is
then refused. -/
theorem Tracks.simulates_input (h : Tracks m inputs s) (hip : s.ip = m.ip + 1) (word : Word) :
    Simulates
      (m.conclude word (m.ip + 1 + Int64.ofNat 1) (inputs.drop 1) (m.effect word inputs .input))
      (conclude m.ip word ((do
        let value ← takeInput
        store m.ip word 1 value
        return {} : Exec Report).run s)) := by
  rw [EStateM.run_bind]
  cases inputs with
  | nil =>
    rw [run_takeInput_of_nil h.inputs.symm]
    exact h.simulates_faulted word (hip.trans (Int64.add_zero _).symm)
  | cons value rest =>
    have htaken : Tracks m rest { s with inputs := rest } :=
      ⟨⟨h.memory, h.base⟩, h.tape, h.image, h.active, rfl⟩
    rw [run_takeInput_of_cons h.inputs.symm]
    exact htaken.simulates_store word (by decide) (by decide) value

/-- Every operation is executed alike. -/
theorem Tracks.simulates_effect (h : Tracks m inputs s) (hip : s.ip = m.ip + 1) {word : Word}
    {op : Opcode} (hop : opDigits word = op.number.toInt) :
    Simulates
      (m.conclude word (m.ip + 1 + Int64.ofNat op.arity) (Machine.inputsAfter op inputs)
        (m.effect word inputs op))
      (conclude m.ip word ((operate m.ip word).run s)) := by
  unfold operate
  rw [hop]
  cases op with
  | add =>
    rw [show Opcode.add.number.toInt = 1 by decide]
    exact h.simulates_combine word fun x y => (wrap_add_toInt x y).symm
  | mul =>
    rw [show Opcode.mul.number.toInt = 2 by decide]
    exact h.simulates_combine word fun x y => (wrap_mul_toInt x y).symm
  | input =>
    rw [show Opcode.input.number.toInt = 3 by decide]
    exact h.simulates_input hip word
  | output =>
    rw [show Opcode.output.number.toInt = 4 by decide]
    exact h.simulates_output word
  | jumpTrue =>
    rw [show Opcode.jumpTrue.number.toInt = 5 by decide]
    refine h.simulates_jump word fun x => ?_
    rw [Bool.eq_iff_iff, bne_iff_ne, decide_eq_true_iff, ne_eq, ne_eq, toInt_eq_zero_iff]
  | jumpFalse =>
    rw [show Opcode.jumpFalse.number.toInt = 6 by decide]
    refine h.simulates_jump word fun x => ?_
    rw [Bool.eq_iff_iff, beq_iff_eq, decide_eq_true_iff, toInt_eq_zero_iff]
  | lessThan =>
    rw [show Opcode.lessThan.number.toInt = 7 by decide]
    refine h.simulates_combine word fun x y => ?_
    simp only [Int64.lt_iff_toInt_lt]
  | equal =>
    rw [show Opcode.equal.number.toInt = 8 by decide]
    refine h.simulates_combine word fun x y => ?_
    simp only [Int64.toInt_inj]
  | adjustBase =>
    rw [show Opcode.adjustBase.number.toInt = 9 by decide]
    exact h.simulates_rebase word
  | halt =>
    rw [show Opcode.halt.number.toInt = 99 by decide]
    refine ⟨rfl, h.inputs, ⟨h.memory, h.base⟩, h.tape, h.image, ?_, rfl⟩
    exact (hip.trans (Int64.add_zero _).symm).symm

/-- An operation that no number stands for fails alike. -/
theorem Tracks.simulates_unknown (h : Tracks m inputs s) (hip : s.ip = m.ip + 1) {word : Word}
    (hop : Opcode.ofNumber? (Instruction.opDigits word) = none) :
    Simulates (m.faulted word ⟨.unknownOpcode (Instruction.opDigits word), 0⟩ inputs)
      (conclude m.ip word ((operate m.ip word).run s)) := by
  have hdigits : (Instruction.opDigits word).toInt = opDigits word :=
    Instruction.toInt_opDigits word
  have hne (op : Opcode) : opDigits word ≠ op.number.toInt := by
    rw [← hdigits]
    exact mt Int64.toInt_inj.mp (Opcode.ofNumber?_eq_none_iff.mp hop op)
  have hrun : (operate m.ip word).run s =
      .error (.unknownOpcode (Instruction.opDigits word)) s := by
    unfold operate
    split
    case h_11 => rw [Outcome.run_throw, ← hdigits, wrap, Int64.ofInt_toInt]
    case h_1 hvalue => exact absurd hvalue (hne .add)
    case h_2 hvalue => exact absurd hvalue (hne .mul)
    case h_3 hvalue => exact absurd hvalue (hne .input)
    case h_4 hvalue => exact absurd hvalue (hne .output)
    case h_5 hvalue => exact absurd hvalue (hne .jumpTrue)
    case h_6 hvalue => exact absurd hvalue (hne .jumpFalse)
    case h_7 hvalue => exact absurd hvalue (hne .lessThan)
    case h_8 hvalue => exact absurd hvalue (hne .equal)
    case h_9 hvalue => exact absurd hvalue (hne .adjustBase)
    case h_10 hvalue => exact absurd hvalue (hne .halt)
  rw [hrun]
  exact h.simulates_faulted word (hip.trans (Int64.add_zero _).symm)

/-- The instruction at which both machines stand. -/
theorem Tracks.simulates_step (h : Tracks m inputs s) (hip : s.ip = m.ip)
    (hactive : m.active = true) : Simulates (m.tick inputs) s.step := by
  unfold Machine.tick State.step
  rw [if_pos hactive, run_peek h.toAgrees, hip]
  cases m.tape.read? m.ip with
  | none =>
    simp only [Option.elim_none, settle]
    rw [hip]
    exact ⟨rfl, h.inputs, ⟨h.memory, h.base⟩, h.tape, h.image, hip.symm, rfl⟩
  | some word =>
    simp only [Option.elim_some, settle]
    have hmoved : (execute s.ip word).run s =
        (operate m.ip word).run { s with ip := wrap (m.ip.toInt + 1) } := by
      rw [hip, execute, EStateM.run_bind, EStateM.run_modify]
    have htracks : Tracks m inputs { s with ip := wrap (m.ip.toInt + 1) } :=
      ⟨⟨h.memory, h.base⟩, h.tape, h.image, h.active, h.inputs⟩
    have hpassed : wrap (m.ip.toInt + 1) = m.ip + 1 := wrap_add m.ip 1
    rw [hmoved, hip]
    cases hop : Opcode.ofNumber? (Instruction.opDigits word) with
    | none =>
      rw [Machine.execute_of_none hop]
      exact htracks.simulates_unknown hpassed hop
    | some op =>
      rw [Machine.execute_of_some hop]
      apply htracks.simulates_effect hpassed
      rw [← Opcode.ofNumber?_eq_some_iff.mp hop]
      exact (Instruction.toInt_opDigits word).symm

end Instructions

/-! ## Anything that can be done to a machine -/

/-- An instruction goes the same way on machines that correspond. -/
theorem Represents.simulates_tick {m : Machine} {s : State} (h : Represents m s)
    (inputs : List Word) : Simulates (m.tick inputs) (s.tick inputs) := by
  unfold State.tick
  by_cases hactive : m.active = true
  · rw [if_pos (h.active ▸ hactive)]
    have htracks : Tracks m inputs { s with inputs } :=
      ⟨⟨h.memory, h.base⟩, h.tape, h.image, h.active, rfl⟩
    exact htracks.simulates_step h.ip.symm hactive
  · rw [if_neg (h.active ▸ hactive), Machine.tick, if_neg hactive]
    exact ⟨rfl, rfl, ⟨h.memory, h.base⟩, h.tape, h.image, h.ip, h.active⟩

end Plain

/-- Something that is done to a machine from outside. -/
inductive Action where
  | tick (inputs : List Word)
  | reset
  | stop
  /-- A write to its memory. -/
  | write (addr value : Word)
  deriving DecidableEq, Repr

/-- A machine after an action. -/
def Machine.act (m : Machine) : Action → Machine
  | .tick inputs => (m.tick inputs).machine
  | .reset => m.reset
  | .stop => m.stop
  | .write addr value => { m with tape := m.tape.change (.write addr value) }

namespace Plain

/-- A plain machine after an action. -/
def State.act (s : State) : Action → State
  | .tick inputs => (s.tick inputs).2
  | .reset => s.reset
  | .stop => s.stop
  | .write addr value => s.write addr value

/-- Machines for the same image correspond. -/
theorem represents_ofImage (name : String) (image : Array Word) :
    Represents (Machine.ofImage name image) (State.ofImage image) where
  memory := fun a => Tape.get_ofImage image a
  base := rfl
  tape := Tape.wellFormed_ofImage image
  image := fun _ => rfl
  ip := rfl
  active := rfl

/-- Every action keeps the correspondence. -/
theorem Represents.act {m : Machine} {s : State} (h : Represents m s) (action : Action) :
    Represents (m.act action) (s.act action) := by
  cases action with
  | tick inputs => exact (h.simulates_tick inputs).represents
  | stop => exact ⟨⟨h.memory, h.base⟩, h.tape, h.image, h.ip, rfl⟩
  | reset =>
    refine ⟨⟨fun a => ?_, rfl⟩, Tape.wellFormed_ofImage _, h.image, rfl, rfl⟩
    exact (Tape.get_ofImage m.tape.baseline a).trans (h.image a)
  | write addr value =>
    simp only [Machine.act, State.act, State.write]
    cases haddr : addr.address? with
    | none =>
      rw [run_address_of_none haddr, Tape.change_write_of_none haddr]
      exact h
    | some a =>
      rw [run_address_of_some haddr, Tape.change_write_of_some haddr]
      have hmemory (b : Address) := h.get_set h.tape (Word.lt_of_address?_eq_some haddr) value b
      have himage (b : Address) : (m.tape.set a value).baseline.getD b 0 = s.image b := by
        rw [Tape.baseline_set, h.image b]
      exact ⟨⟨hmemory, h.base⟩, h.tape.set a value, himage, h.ip, h.active⟩

/-- Actions keep the correspondence. -/
theorem Represents.actAll {m : Machine} {s : State} (h : Represents m s) (actions : List Action) :
    Represents (actions.foldl Machine.act m) (actions.foldl State.act s) := by
  induction actions generalizing m s with
  | nil => exact h
  | cons action actions ih => exact ih (h.act action)

/-- The machine over a tape refines the plain machine: after any actions the two
correspond, and the next instruction goes the same way on both. -/
theorem simulates_after_actions (name : String) (image : Array Word) (actions : List Action) :
    let m := actions.foldl Machine.act (Machine.ofImage name image)
    let s := actions.foldl State.act (State.ofImage image)
    Represents m s ∧ ∀ inputs, Simulates (m.tick inputs) (s.tick inputs) := by
  intro m s
  have h : Represents m s := (represents_ofImage name image).actAll actions
  exact ⟨h, h.simulates_tick⟩

end Plain

end TapeMachine
