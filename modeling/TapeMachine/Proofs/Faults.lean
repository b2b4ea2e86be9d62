import TapeMachine.Proofs.PlainFaults
import TapeMachine.Proofs.Simulation

/-!
# Faults

A fault tells where the instruction stands, its word, and what is wrong with it. Since an
instruction is examined before it has any effect, a fault leaves the memory, the relative
base and the count of instructions as they were. Only the instruction pointer moves, the
machine becomes inactive, and an input may be gone for which there was no destination. The
plain machine, which has its effects one by one, confirms this through the correspondence.
-/

namespace TapeMachine.Machine

/-! ## What is wrong with an instruction -/

/-- The instruction at which a machine stands: its word and its operation. -/
structure StandsAt (m : Machine) (word : Word) (op : Opcode) : Prop where
  holds : m.tape.read? m.ip = some word
  operation : Opcode.ofNumber? (Instruction.opDigits word) = some op

/-- A parameter leads below the first cell: its own place is there, or the place that it
names. -/
def LeadsBelow (m : Machine) (word : Word) (n : Nat) : Prop :=
  m.ip + Int64.ofNat n < 0 ∨ ∃ addr, m.address word n = .ok addr ∧ addr < 0

/-- What is wrong with the instruction at which a machine stands. -/
inductive Wrong (m : Machine) (inputs : List Word) : Cause → Prop where
  /-- There is no instruction. -/
  | outside (hip : m.ip < 0) : Wrong m inputs .negativeAddress
  | opcode {word : Word} (hword : m.tape.read? m.ip = some word)
    (hop : Opcode.ofNumber? (Instruction.opDigits word) = none) :
    Wrong m inputs (.unknownOpcode (Instruction.opDigits word))
  | mode {word : Word} {op : Opcode} {n : Nat} (hat : m.StandsAt word op) (hn : 1 ≤ n)
    (hn' : n ≤ op.arity) (hmode : Mode.ofNumber? (Instruction.modeDigit word n) = none) :
    Wrong m inputs (.unknownMode n (Instruction.modeDigit word n))
  | destination {word : Word} {op : Opcode} (hat : m.StandsAt word op)
    (hwrites : op.writes = true)
    (hmode : Mode.ofNumber? (Instruction.modeDigit word op.arity) = some .immediate) :
    Wrong m inputs .immediateDestination
  | input {word : Word} (hat : m.StandsAt word .input) (hinputs : inputs = []) :
    Wrong m inputs .inputExhausted
  | address {word : Word} {op : Opcode} {n : Nat} (hat : m.StandsAt word op) (hn : 1 ≤ n)
    (hn' : n ≤ op.arity) (hbelow : m.LeadsBelow word n) : Wrong m inputs .negativeAddress

section Causes

variable {m : Machine} {inputs : List Word} {word : Word} {op : Opcode} {n : Nat}
  {failure : Failure}

/-- A parameter has no address because of its mode or because of its own place. -/
theorem address_eq_error {cause : Cause} (haddress : m.address word n = .error cause) :
    Mode.ofNumber? (Instruction.modeDigit word n) = none ∧
        cause = .unknownMode n (Instruction.modeDigit word n) ∨
      m.ip + Int64.ofNat n < 0 ∧ cause = .negativeAddress := by
  cases hmode : Mode.ofNumber? (Instruction.modeDigit word n) with
  | none =>
    unfold address at haddress
    simp only [hmode] at haddress
    cases haddress
    exact .inl ⟨rfl, rfl⟩
  | some mode =>
    have hcause := cause_of_address hmode haddress
    refine .inr ⟨?_, hcause⟩
    unfold address at haddress
    simp only [hmode] at haddress
    by_contra hplace
    have hread : m.tape.read? (m.ip + Int64.ofNat n) ≠ none := by
      rwa [ne_eq, Tape.read?_eq_none_iff]
    obtain ⟨value, hvalue⟩ := Option.ne_none_iff_exists'.mp hread
    rw [hvalue] at haddress
    cases mode with
    | position => cases haddress
    | immediate => cases haddress
    | relative => cases haddress

/-- A parameter has no address because of something that is wrong. -/
theorem wrong_of_address (hat : m.StandsAt word op) (hn : 1 ≤ n) (hn' : n ≤ op.arity)
    {cause : Cause} (haddress : m.address word n = .error cause) : m.Wrong inputs cause := by
  rcases address_eq_error haddress with ⟨hmode, rfl⟩ | ⟨hplace, rfl⟩
  · exact .mode hat hn hn' hmode
  · exact .address hat hn hn' (.inl hplace)

/-- A parameter has no value because of something that is wrong. -/
private theorem wrong_of_load (hat : m.StandsAt word op) (hn : 1 ≤ n) (hn' : n ≤ op.arity)
    (hload : m.load word n = .error failure) : m.Wrong inputs failure.cause := by
  unfold load at hload
  cases haddress : m.address word n with
  | error cause =>
    rw [haddress] at hload
    cases hload
    exact wrong_of_address hat hn hn' haddress
  | ok addr =>
    rw [haddress] at hload
    dsimp only at hload
    cases hread : m.tape.read? addr with
    | none =>
      rw [hread] at hload
      cases hload
      exact .address hat hn hn' (.inr ⟨addr, haddress, Tape.read?_eq_none_iff.mp hread⟩)
    | some value =>
      rw [hread] at hload
      cases hload

/-- A destination is refused because of something that is wrong. -/
private theorem wrong_of_destination (hat : m.StandsAt word op) (hwrites : op.writes = true)
    (hdestination : m.destination word op.arity = .error failure) :
    m.Wrong inputs failure.cause := by
  have hn : 1 ≤ op.arity := by
    cases op <;> first | decide | cases hwrites
  unfold destination at hdestination
  by_cases himmediate : Instruction.modeDigit word op.arity = Mode.immediate.number
  · rw [if_pos himmediate] at hdestination
    cases hdestination
    exact .destination hat hwrites (Mode.ofNumber?_eq_some_iff.mpr himmediate)
  · rw [if_neg himmediate] at hdestination
    cases haddress : m.address word op.arity with
    | error cause =>
      rw [haddress] at hdestination
      cases hdestination
      exact wrong_of_address hat hn (Nat.le_refl _) haddress
    | ok addr =>
      rw [haddress] at hdestination
      dsimp only at hdestination
      cases hcell : addr.address? with
      | none =>
        rw [hcell] at hdestination
        cases hdestination
        have hneg := Word.address?_eq_none_iff.mp hcell
        exact .address hat hn (Nat.le_refl _) (.inr ⟨addr, haddress, hneg⟩)
      | some a =>
        rw [hcell] at hdestination
        cases hdestination

/-- The examination of an instruction fails for what is wrong with it. -/
theorem wrong_of_effect (hat : m.StandsAt word op)
    (heffect : m.effect word inputs op = .error failure) : m.Wrong inputs failure.cause := by
  rcases effect_eq_error heffect with ⟨rfl, hinputs, rfl⟩ | ⟨n, hn, hn', hload⟩ |
    ⟨hwrites, _, hdestination⟩
  · exact .input hat hinputs
  · exact wrong_of_load hat hn hn' hload
  · exact wrong_of_destination hat hwrites hdestination

end Causes

/-! ## One instruction -/

/-- What an instruction reports. One that fails reports nothing. -/
def Tick.report (t : Tick) : Plain.Report :=
  match t.result with
  | .ok event => .of event
  | .error _ => {}

/-- The machine stands at an input instruction, has an input for it, and the destination is
refused. -/
def RefusesInput (m : Machine) (inputs : List Word) : Prop :=
  inputs ≠ [] ∧ ∃ word failure, m.StandsAt word .input ∧ m.destination word 1 = .error failure

/-- An instruction failed and did no harm. -/
structure Contained (m : Machine) (inputs : List Word) (t : Tick) (error : MachineError) :
    Prop where
  located : ∃ cause, error = .fault ⟨m.ip, (m.tape.read? m.ip).getD 0, cause⟩ ∧
    m.Wrong inputs cause
  report : t.report = {}
  inactive : t.machine.active = false
  tape : t.machine.tape = m.tape
  base : t.machine.base = m.base
  ticks : t.machine.ticks = m.ticks
  /-- The input is taken before its destination is examined. -/
  taken : m.RefusesInput inputs → ∃ value, inputs = value :: t.inputs
  kept : ¬ m.RefusesInput inputs → t.inputs = inputs

/-- An instruction succeeded, and is counted. -/
structure Completed (m : Machine) (t : Tick) : Prop where
  ticks : t.machine.ticks = m.ticks + 1
  exclusive : ¬ (t.report.output = true ∧ t.report.halted = true)
  active : t.machine.active = true ↔ t.report.halted = false

section Ticks

variable {m : Machine} {inputs : List Word} {word : Word} {op : Opcode}

/-- An active machine executes the word at which it stands. -/
theorem tick_of_read (hactive : m.active = true) (hword : m.tape.read? m.ip = some word)
    (inputs : List Word) : m.tick inputs = m.execute word inputs := by
  unfold tick
  rw [if_pos hactive, hword]

/-- An active machine that stands at a known operation examines it and concludes. -/
theorem StandsAt.tick_eq (hat : m.StandsAt word op) (hactive : m.active = true)
    (inputs : List Word) :
    m.tick inputs = m.conclude word (m.ip + 1 + Int64.ofNat op.arity) (inputsAfter op inputs)
      (m.effect word inputs op) := by
  rw [tick_of_read hactive hat.holds, execute_of_some hat.operation]

/-- A machine stands at one instruction. -/
theorem StandsAt.unique {word' : Word} {op' : Opcode} (hat : m.StandsAt word op)
    (hat' : m.StandsAt word' op') : word = word' ∧ op = op' := by
  obtain rfl := Option.some.inj (hat.holds.symm.trans hat'.holds)
  exact ⟨rfl, Option.some.inj (hat.operation.symm.trans hat'.operation)⟩

/-- A machine that stands outside of its memory fails without harm. -/
private theorem contained_outside (hip : m.ip < 0) (inputs : List Word) :
    m.Contained inputs
      ⟨.error (.fault ⟨m.ip, 0, .negativeAddress⟩), { m with active := false }, inputs⟩
      (.fault ⟨m.ip, 0, .negativeAddress⟩) where
  located := by
    refine ⟨.negativeAddress, ?_, .outside hip⟩
    rw [Tape.read?_eq_none_iff.mpr hip, Option.getD_none]
  report := rfl
  inactive := rfl
  tape := rfl
  base := rfl
  ticks := rfl
  taken := by
    rintro ⟨_, word, _, hat, _⟩
    have hholds := hat.holds
    rw [Tape.read?_eq_none_iff.mpr hip] at hholds
    cases hholds
  kept _ := rfl

/-- What a machine does when an instruction fails is contained, as far as the right inputs
are left. -/
theorem contained_faulted (hword : m.tape.read? m.ip = some word) {failure : Failure}
    (hwrong : m.Wrong inputs failure.cause) {left : List Word}
    (htaken : m.RefusesInput inputs → ∃ value, inputs = value :: left)
    (hkept : ¬ m.RefusesInput inputs → left = inputs) :
    m.Contained inputs (m.faulted word failure left) (.fault ⟨m.ip, word, failure.cause⟩) where
  located := by
    refine ⟨failure.cause, ?_, hwrong⟩
    rw [hword, Option.getD_some]
  report := rfl
  inactive := rfl
  tape := rfl
  base := rfl
  ticks := rfl
  taken := htaken
  kept := hkept

/-- The inputs that are left when the instruction of a known operation fails. -/
theorem inputsAfter_of_error (hat : m.StandsAt word op) {failure : Failure}
    (heffect : m.effect word inputs op = .error failure) :
    (m.RefusesInput inputs → ∃ value, inputs = value :: inputsAfter op inputs) ∧
      (¬ m.RefusesInput inputs → inputsAfter op inputs = inputs) := by
  constructor
  · rintro ⟨hne, word', _, hat', _⟩
    obtain ⟨_, rfl⟩ := hat.unique hat'
    obtain ⟨value, rest, rfl⟩ := List.exists_cons_of_ne_nil hne
    exact ⟨value, rfl⟩
  · intro hrefuses
    cases op with
    | input =>
      cases inputs with
      | nil => rfl
      | cons value rest =>
        rcases Outcome.bind_eq_error_iff.mp heffect with ha | ⟨a, _, hrest⟩
        · exact absurd ⟨List.cons_ne_nil value rest, word, failure, hat, ha⟩ hrefuses
        · cases hrest
    | _ => rfl

/-- An effect is counted, and only a halt makes the machine inactive. -/
theorem completed_apply (hactive : m.active = true) (next : Word) (e : Effect)
    (left : List Word) :
    m.Completed ⟨.ok (m.apply next e).2, (m.apply next e).1, left⟩ := by
  obtain ⟨name, verbose, tape, ip, base, ticks, active⟩ := m
  cases e with
  | halt =>
    refine ⟨rfl, fun h => absurd h.1 Bool.false_ne_true, fun h => ?_, fun h => ?_⟩
    · exact absurd h Bool.false_ne_true
    · exact absurd h.symm Bool.false_ne_true
  | emit value | store a value | jump target | proceed | rebase offset =>
    exact ⟨rfl, fun h => absurd h.2 Bool.false_ne_true, fun _ => rfl, fun _ => hactive⟩

/-- A machine stands outside of its memory, at an unknown operation or at a known one. -/
theorem standing_cases (m : Machine) :
    m.ip < 0 ∨ (∃ word, m.tape.read? m.ip = some word ∧
        Opcode.ofNumber? (Instruction.opDigits word) = none) ∨
      ∃ word op, m.StandsAt word op := by
  cases hword : m.tape.read? m.ip with
  | none => exact .inl (Tape.read?_eq_none_iff.mp hword)
  | some word =>
    cases hop : Opcode.ofNumber? (Instruction.opDigits word) with
    | none => exact .inr (.inl ⟨word, rfl, hop⟩)
    | some op => exact .inr (.inr ⟨word, op, hword, hop⟩)

/-- A machine that stands outside of its memory fails without a word. -/
theorem tick_of_outside (hactive : m.active = true) (hip : m.ip < 0) (inputs : List Word) :
    m.tick inputs =
      ⟨.error (.fault ⟨m.ip, 0, .negativeAddress⟩), { m with active := false }, inputs⟩ := by
  unfold tick
  rw [if_pos hactive, Tape.read?_eq_none_iff.mpr hip]

/-- An unknown operation fails without a parameter. -/
theorem tick_of_unknown (hactive : m.active = true) (hword : m.tape.read? m.ip = some word)
    (hop : Opcode.ofNumber? (Instruction.opDigits word) = none) (inputs : List Word) :
    m.tick inputs = m.faulted word ⟨.unknownOpcode (Instruction.opDigits word), 0⟩ inputs := by
  rw [tick_of_read hactive hword, execute_of_none hop]

/-- Every instruction of an active machine fails without harm or is completed. -/
theorem contained_or_completed (hactive : m.active = true) (inputs : List Word) :
    (∃ error, (m.tick inputs).result = .error error ∧
        m.Contained inputs (m.tick inputs) error) ∨
      ∃ event, (m.tick inputs).result = .ok event ∧ m.Completed (m.tick inputs) := by
  rcases m.standing_cases with hip | ⟨word, hword, hop⟩ | ⟨word, op, hat⟩
  · rw [tick_of_outside hactive hip]
    exact .inl ⟨_, rfl, contained_outside hip inputs⟩
  · rw [tick_of_unknown hactive hword hop]
    have hnone : ¬ m.RefusesInput inputs := by
      rintro ⟨_, word', _, hat, _⟩
      obtain rfl := Option.some.inj (hword.symm.trans hat.holds)
      have hknown := hat.operation
      rw [hop] at hknown
      cases hknown
    refine .inl ⟨_, rfl, contained_faulted hword (.opcode hword hop) ?_ fun _ => rfl⟩
    exact fun hrefuses => absurd hrefuses hnone
  · rw [hat.tick_eq hactive]
    cases heffect : m.effect word inputs op with
    | error failure =>
      obtain ⟨htaken, hkept⟩ := inputsAfter_of_error hat heffect
      exact .inl ⟨_, rfl, contained_faulted hat.holds (wrong_of_effect hat heffect) htaken hkept⟩
    | ok e => exact .inr ⟨_, rfl, completed_apply hactive _ e _⟩

/-- An instruction that fails does no harm. -/
theorem contained_of_error (hactive : m.active = true) {error : MachineError}
    (herror : (m.tick inputs).result = .error error) :
    m.Contained inputs (m.tick inputs) error := by
  rcases contained_or_completed hactive inputs with ⟨error', herror', hcontained⟩ | ⟨_, hok, _⟩
  · obtain rfl := Except.error.inj (herror'.symm.trans herror)
    exact hcontained
  · rw [hok] at herror
    cases herror

/-- An instruction that succeeds is completed. -/
theorem completed_of_ok (hactive : m.active = true) {event : Event}
    (hok : (m.tick inputs).result = .ok event) : m.Completed (m.tick inputs) := by
  rcases contained_or_completed hactive inputs with ⟨_, herror, _⟩ | ⟨_, _, hcompleted⟩
  · rw [herror] at hok
    cases hok
  · exact hcompleted

end Ticks

/-- A machine that corresponds to a plain machine fails where the plain machine does, and there
an instruction does no harm step by step. -/
theorem plain_contained_of_error {m : Machine} {s : Plain.State} (h : Plain.Represents m s)
    (hactive : m.active = true) {inputs : List Word} {error : MachineError}
    (herror : (m.tick inputs).result = .error error) :
    s.Contained inputs (s.tick inputs).2 ∧ Plain.Simulates (m.tick inputs) (s.tick inputs) := by
  have hsimulates := h.simulates_tick inputs
  have hplain : (s.tick inputs).1 = .error error := by
    rw [← hsimulates.result, herror]
    rfl
  exact ⟨Plain.State.contained_of_error (h.active ▸ hactive) hplain, hsimulates⟩

/-- A fault is contained and located. If an instruction of an active machine fails, the fault
names its place, the word there and what is wrong with it. The machine reports nothing and
is inactive; its tape, its relative base and its count of instructions are as before; and no
input is gone, except one for which an input instruction had no destination. If it succeeds,
it is counted, does not halt with an output, and leaves the machine active unless it halts.

A corresponding plain machine keeps all that it has changed before a failure. The same
instruction fails there as well, and leaves the memory and the relative base as they were. -/
theorem tick_contained (m : Machine) (inputs : List Word) (hactive : m.active = true) :
    (∀ error, (m.tick inputs).result = .error error →
      m.Contained inputs (m.tick inputs) error) ∧
    (∀ event, (m.tick inputs).result = .ok event → m.Completed (m.tick inputs)) ∧
    ∀ s, Plain.Represents m s → ∀ error, (m.tick inputs).result = .error error →
      s.Contained inputs (s.tick inputs).2 ∧
        Plain.Simulates (m.tick inputs) (s.tick inputs) := by
  refine ⟨?_, ?_, ?_⟩
  · intro error herror
    exact contained_of_error hactive herror
  · intro event hok
    exact completed_of_ok hactive hok
  · intro s hrepresents error herror
    exact plain_contained_of_error hrepresents hactive herror

/-- An input whose destination lies below the first cell is lost, and nothing else, on the
machine and on the plain one. -/
theorem tick_contained_refused :
    let m := (ofImage "A" #[3, -1]).reset
    let s := (Plain.State.ofImage #[3, -1]).reset
    m.active = true ∧ m.RefusesInput [7, 8] ∧ Plain.Represents m s ∧
      (m.tick [7, 8]).result = .error (.fault ⟨0, 3, .negativeAddress⟩) ∧
      m.Contained [7, 8] (m.tick [7, 8]) (.fault ⟨0, 3, .negativeAddress⟩) ∧
      (m.tick [7, 8]).inputs = [8] ∧ s.Contained [7, 8] (s.tick [7, 8]).2 := by
  intro m s
  have hresult : (m.tick [7, 8]).result = .error (.fault ⟨0, 3, .negativeAddress⟩) := by decide
  have hrefuses : m.RefusesInput [7, 8] :=
    ⟨by decide, 3, ⟨.negativeAddress, 1⟩, ⟨by decide, by decide⟩, by decide⟩
  have hrepresents : Plain.Represents m s :=
    (Plain.represents_ofImage "A" #[3, -1]).act .reset
  obtain ⟨hcontained, _, hplain⟩ := tick_contained m [7, 8] rfl
  have hfault := hcontained _ hresult
  obtain ⟨value, hinputs⟩ := hfault.taken hrefuses
  exact ⟨rfl, hrefuses, hrepresents, hresult, hfault, (List.cons.inj hinputs).2.symm,
    (hplain s hrepresents _ hresult).1⟩

end TapeMachine.Machine
