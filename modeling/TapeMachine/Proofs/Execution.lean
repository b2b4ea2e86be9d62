import TapeMachine.Machine
import TapeMachine.Proofs.InstructionWord
import TapeMachine.Proofs.Outcome

/-!
# One instruction in two parts

An instruction is examined first, which decides between a failure and an effect,
and then concluded. These lemmas say where an examination fails and put every
instruction into the form of an examination and its conclusion. An executable
instruction fails for lack of input or at a negative address only.
-/

namespace TapeMachine.Machine

/-- A parameter that gives no value fails as the last one examined. -/
theorem examined_of_load {m : Machine} {word : Word} {n : Nat} {failure : Failure}
    (hload : m.load word n = .error failure) : failure.examined = n := by
  unfold load at hload
  split at hload
  · cases hload
    rfl
  · split at hload
    · cases hload
      rfl
    · cases hload

/-- A parameter that names no destination fails as the last one examined. -/
theorem examined_of_destination {m : Machine} {word : Word} {n : Nat} {failure : Failure}
    (hdestination : m.destination word n = .error failure) : failure.examined = n := by
  unfold destination at hdestination
  split at hdestination
  · cases hdestination
    rfl
  · split at hdestination
    · cases hdestination
      rfl
    · split at hdestination
      · cases hdestination
        rfl
      · cases hdestination

/-- The conclusion of an instruction that was examined. -/
def conclude (m : Machine) (word next : Word) (left : List Word) : Except Failure Effect → Tick
  | .error failure => m.faulted word failure left
  | .ok e => ⟨.ok (m.apply next e).2, (m.apply next e).1, left⟩

/-- The instruction of a known operation is examined and then concluded. -/
theorem execute_of_some {m : Machine} {word : Word} {op : Opcode}
    (hop : Opcode.ofNumber? (Instruction.opDigits word) = some op) (inputs : List Word) :
    m.execute word inputs =
      m.conclude word (m.ip + 1 + Int64.ofNat op.arity) (inputsAfter op inputs)
        (m.effect word inputs op) := by
  simp only [execute, hop]
  cases m.effect word inputs op <;> rfl

/-- The instruction of an unknown operation fails before its parameters. -/
theorem execute_of_none {m : Machine} {word : Word}
    (hop : Opcode.ofNumber? (Instruction.opDigits word) = none) (inputs : List Word) :
    m.execute word inputs =
      m.faulted word ⟨.unknownOpcode (Instruction.opDigits word), 0⟩ inputs := by
  simp only [execute, hop]

/-! ## Where an examination fails -/

/-- A combination fails at an operand or at its destination. -/
private theorem combine_eq_error {m : Machine} {word : Word} {f : Word → Word → Word}
    {failure : Failure} (hcombine : m.combine word f = .error failure) :
    m.load word 1 = .error failure ∨ m.load word 2 = .error failure ∨
      m.destination word 3 = .error failure := by
  rcases Outcome.bind_eq_error_iff.mp hcombine with hx | ⟨x, _, hrest⟩
  · exact .inl hx
  rcases Outcome.bind_eq_error_iff.mp hrest with hy | ⟨y, _, hrest⟩
  · exact .inr (.inl hy)
  rcases Outcome.bind_eq_error_iff.mp hrest with ha | ⟨a, _, hrest⟩
  · exact .inr (.inr ha)
  · cases hrest

/-- A branch fails at one of its operands. -/
private theorem branch_eq_error {m : Machine} {word : Word} {taken : Word → Bool}
    {failure : Failure} (hbranch : m.branch word taken = .error failure) :
    m.load word 1 = .error failure ∨ m.load word 2 = .error failure := by
  rcases Outcome.bind_eq_error_iff.mp hbranch with hx | ⟨x, _, hrest⟩
  · exact .inl hx
  rcases Outcome.bind_eq_error_iff.mp hrest with htarget | ⟨target, _, hrest⟩
  · exact .inr htarget
  · cases hrest

/-- The examination of an instruction fails because there is no input, because a parameter
has no value, or because the last one is no destination. -/
theorem effect_eq_error {m : Machine} {word : Word} {inputs : List Word} {op : Opcode}
    {failure : Failure} (heffect : m.effect word inputs op = .error failure) :
    (op = .input ∧ inputs = [] ∧ failure = ⟨.inputExhausted, 0⟩) ∨
      (∃ n, 1 ≤ n ∧ n ≤ op.arity ∧ m.load word n = .error failure) ∨
      (op.writes = true ∧ (op = .input → inputs ≠ []) ∧
        m.destination word op.arity = .error failure) := by
  cases op with
  | add | mul | lessThan | equal =>
    rcases combine_eq_error heffect with hx | hy | ha
    · exact .inr (.inl ⟨1, by decide, by decide, hx⟩)
    · exact .inr (.inl ⟨2, by decide, by decide, hy⟩)
    · exact .inr (.inr ⟨rfl, fun h => absurd h (by decide), ha⟩)
  | jumpTrue | jumpFalse =>
    rcases branch_eq_error heffect with hx | htarget
    · exact .inr (.inl ⟨1, by decide, by decide, hx⟩)
    · exact .inr (.inl ⟨2, by decide, by decide, htarget⟩)
  | output | adjustBase =>
    rcases Outcome.bind_eq_error_iff.mp heffect with hvalue | ⟨value, _, hrest⟩
    · exact .inr (.inl ⟨1, by decide, by decide, hvalue⟩)
    · cases hrest
  | halt => cases heffect
  | input =>
    cases inputs with
    | nil =>
      cases heffect
      exact .inl ⟨rfl, rfl, rfl⟩
    | cons value rest =>
      rcases Outcome.bind_eq_error_iff.mp heffect with ha | ⟨a, _, hrest⟩
      · exact .inr (.inr ⟨rfl, fun _ => List.cons_ne_nil value rest, ha⟩)
      · cases hrest

/-! ## Executable instructions -/

/-- The address of a parameter with a known mode is missing only because its place is
negative. -/
theorem cause_of_address {m : Machine} {word : Word} {n : Nat} {mode : Mode}
    (hmode : Mode.ofNumber? (Instruction.modeDigit word n) = some mode) {cause : Cause}
    (haddress : m.address word n = .error cause) : cause = .negativeAddress := by
  unfold address at haddress
  simp only [hmode] at haddress
  cases mode with
  | immediate => cases haddress
  | position | relative =>
    cases hread : m.tape.read? (m.ip + Int64.ofNat n) with
    | none =>
      rw [hread] at haddress
      cases haddress
      rfl
    | some addr =>
      rw [hread] at haddress
      cases haddress

/-- A parameter with a known mode has no value only because of a negative address. -/
theorem cause_of_load {m : Machine} {word : Word} {n : Nat} {mode : Mode}
    (hmode : Mode.ofNumber? (Instruction.modeDigit word n) = some mode) {failure : Failure}
    (hload : m.load word n = .error failure) : failure.cause = .negativeAddress := by
  unfold load at hload
  cases haddress : m.address word n with
  | error cause =>
    rw [haddress] at hload
    cases hload
    exact cause_of_address hmode haddress
  | ok addr =>
    rw [haddress] at hload
    dsimp only at hload
    cases hread : m.tape.read? addr with
    | none =>
      rw [hread] at hload
      cases hload
      rfl
    | some value =>
      rw [hread] at hload
      cases hload

/-- A parameter that is not given by value is no destination only because of a negative
address. -/
theorem cause_of_destination {m : Machine} {word : Word} {n : Nat} {mode : Mode}
    (hmode : Mode.ofNumber? (Instruction.modeDigit word n) = some mode) (hne : mode ≠ .immediate)
    {failure : Failure} (hdestination : m.destination word n = .error failure) :
    failure.cause = .negativeAddress := by
  have hdigit : Instruction.modeDigit word n ≠ Mode.immediate.number := by
    intro himmediate
    have hother := Mode.ofNumber?_eq_some_iff.mpr himmediate
    exact hne (Option.some.inj (hmode.symm.trans hother))
  unfold destination at hdestination
  rw [if_neg hdigit] at hdestination
  cases haddress : m.address word n with
  | error cause =>
    rw [haddress] at hdestination
    cases hdestination
    exact cause_of_address hmode haddress
  | ok addr =>
    rw [haddress] at hdestination
    dsimp only at hdestination
    cases hcell : addr.address? with
    | none =>
      rw [hcell] at hdestination
      cases hdestination
      rfl
    | some a =>
      rw [hcell] at hdestination
      cases hdestination

/-- A word is an executable instruction of an operation: each of its parameters has a
mode, and its destination is not given by value. -/
structure Executable (word : Word) (op : Opcode) : Prop where
  operation : Opcode.ofNumber? (Instruction.opDigits word) = some op
  mode : ∀ n, 1 ≤ n → n ≤ op.arity →
    ∃ mode, Mode.ofNumber? (Instruction.modeDigit word n) = some mode
  destination : op.writes = true →
    ∃ mode, Mode.ofNumber? (Instruction.modeDigit word op.arity) = some mode ∧ mode ≠ .immediate

namespace Executable

variable {m : Machine} {word : Word} {inputs : List Word} {op : Opcode} {failure : Failure}

/-- A parameter of an executable instruction has no value only because of a negative address. -/
theorem cause_of_load (hword : Executable word op) {n : Nat} (hn : 1 ≤ n) (hn' : n ≤ op.arity)
    (hload : m.load word n = .error failure) : failure.cause = .negativeAddress := by
  obtain ⟨mode, hmode⟩ := hword.mode n hn hn'
  exact Machine.cause_of_load hmode hload

/-- A destination of an executable instruction is refused only because of a negative address. -/
theorem cause_of_destination (hword : Executable word op) (hwrites : op.writes = true)
    (hdestination : m.destination word op.arity = .error failure) :
    failure.cause = .negativeAddress := by
  obtain ⟨mode, hmode, hne⟩ := hword.destination hwrites
  exact Machine.cause_of_destination hmode hne hdestination

/-- An executable instruction fails at a negative address, or for lack of input. -/
theorem cause_of_effect (hword : Executable word op)
    (heffect : m.effect word inputs op = .error failure) :
    failure.cause = .negativeAddress ∨
      op = .input ∧ inputs = [] ∧ failure.cause = .inputExhausted := by
  rcases effect_eq_error heffect with ⟨hop, hinputs, rfl⟩ | ⟨n, hn, hn', hload⟩ |
    ⟨hwrites, _, hdestination⟩
  · exact .inr ⟨hop, hinputs, rfl⟩
  · exact .inl (hword.cause_of_load hn hn' hload)
  · exact .inl (hword.cause_of_destination hwrites hdestination)

end Executable

/-! ## Where an instruction leads -/

/-- Whether the instruction `word` of an operation jumps: its condition has a value, and
the operation jumps at this value. -/
def TakesJump (m : Machine) (word : Word) : Opcode → Prop
  | .jumpTrue => ∃ x, m.load word 1 = .ok x ∧ x ≠ 0
  | .jumpFalse => m.load word 1 = .ok 0
  | _ => False

/-- What is combined is stored, and has no other effect. -/
theorem combine_eq_ok {m : Machine} {word : Word} {f : Word → Word → Word} {e : Effect}
    (hcombine : m.combine word f = .ok e) : ∃ a value, e = .store a value := by
  obtain ⟨x, _, hrest⟩ := Outcome.bind_eq_ok_iff.mp hcombine
  obtain ⟨y, _, hrest⟩ := Outcome.bind_eq_ok_iff.mp hrest
  obtain ⟨a, _, hrest⟩ := Outcome.bind_eq_ok_iff.mp hrest
  cases hrest
  exact ⟨a, f x y, rfl⟩

/-- A branch jumps if its condition holds, and has no other effect. -/
theorem branch_eq_ok {m : Machine} {word : Word} {taken : Word → Bool} {e : Effect}
    (hbranch : m.branch word taken = .ok e) :
    (∃ x target, m.load word 1 = .ok x ∧ taken x = true ∧ e = .jump target) ∨ e = .proceed := by
  obtain ⟨x, hx, hrest⟩ := Outcome.bind_eq_ok_iff.mp hbranch
  obtain ⟨target, _, hrest⟩ := Outcome.bind_eq_ok_iff.mp hrest
  cases htaken : taken x with
  | true =>
    rw [htaken, if_pos rfl] at hrest
    cases hrest
    exact .inl ⟨x, target, hx, htaken, rfl⟩
  | false =>
    rw [htaken, if_neg Bool.false_ne_true] at hrest
    cases hrest
    exact .inr rfl

/-- The effect of an operation that succeeds. -/
theorem effect_eq_ok {m : Machine} {word : Word} {inputs : List Word} {op : Opcode} {e : Effect}
    (heffect : m.effect word inputs op = .ok e) :
    (∃ a value, e = .store a value) ∨
      (∃ value, op = .output ∧ m.load word 1 = .ok value ∧ e = .emit value) ∨
      (∃ target, m.TakesJump word op ∧ e = .jump target) ∨ e = .proceed ∨
      (∃ offset, e = .rebase offset) ∨ e = .halt := by
  cases op with
  | add | mul | lessThan | equal => exact .inl (combine_eq_ok heffect)
  | input =>
    cases inputs with
    | nil => cases heffect
    | cons value rest =>
      obtain ⟨a, _, hrest⟩ := Outcome.bind_eq_ok_iff.mp heffect
      cases hrest
      exact .inl ⟨a, value, rfl⟩
  | output =>
    obtain ⟨value, hvalue, hrest⟩ := Outcome.bind_eq_ok_iff.mp heffect
    cases hrest
    exact .inr (.inl ⟨value, rfl, hvalue, rfl⟩)
  | jumpTrue =>
    rcases branch_eq_ok heffect with ⟨x, target, hx, htaken, rfl⟩ | rfl
    · exact .inr (.inr (.inl ⟨target, ⟨x, hx, bne_iff_ne.mp htaken⟩, rfl⟩))
    · exact .inr (.inr (.inr (.inl rfl)))
  | jumpFalse =>
    rcases branch_eq_ok heffect with ⟨x, target, hx, htaken, rfl⟩ | rfl
    · have hzero : m.load word 1 = .ok 0 := hx.trans (congrArg Except.ok (beq_iff_eq.mp htaken))
      exact .inr (.inr (.inl ⟨target, hzero, rfl⟩))
    · exact .inr (.inr (.inr (.inl rfl)))
  | adjustBase =>
    obtain ⟨offset, _, hrest⟩ := Outcome.bind_eq_ok_iff.mp heffect
    cases hrest
    exact .inr (.inr (.inr (.inr (.inl ⟨offset, rfl⟩))))
  | halt =>
    cases heffect
    exact .inr (.inr (.inr (.inr (.inr rfl))))

/-- Only a jump that is taken has the effect of one. -/
theorem takesJump_of_effect {m : Machine} {word target : Word} {inputs : List Word} {op : Opcode}
    (heffect : m.effect word inputs op = .ok (.jump target)) : m.TakesJump word op := by
  rcases effect_eq_ok heffect with ⟨_, _, he⟩ | ⟨_, _, _, he⟩ | ⟨_, htakes, _⟩ | he | ⟨_, he⟩ | he
  · cases he
  · cases he
  · exact htakes
  · cases he
  · cases he
  · cases he

/-- An effect that is no jump leads to the next instruction. -/
private theorem ip_apply {e : Effect} (hjump : ∀ target, e ≠ .jump target) (m : Machine)
    (next : Word) : (m.apply next e).1.ip = next := by
  cases e with
  | jump target => exact absurd rfl (hjump target)
  | _ => rfl

/-- The error of an executable instruction. -/
theorem Executable.error_of_execute {m : Machine} {word : Word} {op : Opcode}
    (hword : Executable word op) {inputs : List Word} {error : MachineError}
    (herror : (m.execute word inputs).result = .error error) :
    error = .fault ⟨m.ip, word, .negativeAddress⟩ ∨
      op = .input ∧ inputs = [] ∧ error = .fault ⟨m.ip, word, .inputExhausted⟩ := by
  rw [execute_of_some hword.operation] at herror
  cases heffect : m.effect word inputs op with
  | ok e =>
    rw [heffect] at herror
    cases herror
  | error failure =>
    rw [heffect] at herror
    obtain rfl := Except.error.inj herror
    rcases hword.cause_of_effect heffect with hcause | ⟨hop, hinputs, hcause⟩
    · exact .inl (hcause ▸ rfl)
    · exact .inr ⟨hop, hinputs, hcause ▸ rfl⟩

/-- An instruction that succeeds and does not jump leads past its parameters. -/
theorem ip_execute {m : Machine} {word : Word} {op : Opcode}
    (hop : Opcode.ofNumber? (Instruction.opDigits word) = some op) {inputs : List Word}
    {event : Event} (hok : (m.execute word inputs).result = .ok event)
    (hjump : ¬ m.TakesJump word op) :
    (m.execute word inputs).machine.ip = m.ip + 1 + Int64.ofNat op.arity := by
  rw [execute_of_some hop] at hok ⊢
  cases heffect : m.effect word inputs op with
  | error failure =>
    rw [heffect] at hok
    cases hok
  | ok e =>
    apply ip_apply
    rintro target rfl
    exact hjump (takesJump_of_effect heffect)

end TapeMachine.Machine
