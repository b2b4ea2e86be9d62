import TapeMachine.Proofs.InstructionWord
import TapeMachine.Proofs.Outcome
import TapeMachine.Proofs.PlainMachine

/-!
# Parameters on both machines

The machine over a tape says what a parameter means without moving, and the plain
machine moves past it at the same time. Where the two have the same memory and
relative base, they give a parameter the same address and value, and accept the
same destinations.
-/

namespace TapeMachine.Plain

/-- A plain machine has the memory and the relative base of a machine. These are
what the meaning of a parameter depends on. -/
structure Agrees (m : Machine) (s : State) : Prop where
  memory : ∀ a : Address, m.tape.get a = s.memory a
  base : m.base = s.base

/-- A result without effects, in a given state. -/
def settle (s : State) {α : Type} : Except Cause α → EStateM.Result Cause State α
  | .ok x => .ok x s
  | .error cause => .error cause s

/-- The state behind parameter `n` of the instruction at `start`. -/
def State.past (s : State) (start : Word) (n : Nat) : State :=
  { s with ip := wrap (start.toInt + n + 1) }

/-- The value at a distance from a word, as a word. -/
theorem wrap_add (w : Word) (n : Nat) : wrap (w.toInt + n) = w + Int64.ofNat n := by
  rw [wrap, Int64.ofInt_add, Int64.ofInt_toInt, Int64.ofInt_eq_ofNat]

/-- The value behind a distance from a word, as a word. -/
private theorem wrap_add_add_one (w : Word) (n : Nat) :
    wrap (w.toInt + n + 1) = w + 1 + Int64.ofNat n := by
  have hone : Int64.ofInt 1 = 1 := rfl
  rw [wrap, Int64.ofInt_add, ← wrap, wrap_add, hone, Int64.add_assoc, Int64.add_assoc,
    Int64.add_comm 1]

/-- The sum of two words is that of their values, as a word. -/
theorem wrap_add_toInt (x y : Word) : wrap (x.toInt + y.toInt) = x + y := by
  rw [wrap, Int64.ofInt_add, Int64.ofInt_toInt, Int64.ofInt_toInt]

/-- The product of two words is that of their values, as a word. -/
theorem wrap_mul_toInt (x y : Word) : wrap (x.toInt * y.toInt) = x * y := by
  rw [wrap, Int64.ofInt_mul, Int64.ofInt_toInt, Int64.ofInt_toInt]

/-- A word is zero if its value is. -/
theorem toInt_eq_zero_iff {x : Word} : x.toInt = 0 ↔ x = 0 := by
  rw [← Int64.toInt_inj, Int64.toInt_zero]

/-- The instruction pointer behind a parameter. -/
theorem State.ip_past (s : State) (start : Word) (n : Nat) :
    (s.past start n).ip = start + 1 + Int64.ofNat n :=
  wrap_add_add_one start n

/-- The instruction pointer has no part in the agreement. -/
theorem Agrees.past {m : Machine} {s : State} (h : Agrees m s) (start : Word) (n : Nat) :
    Agrees m (s.past start n) :=
  ⟨h.memory, h.base⟩

/-- A write keeps both memories equal. -/
theorem Agrees.get_set {m : Machine} {s : State} (h : Agrees m s) (ht : m.tape.WellFormed) {a : Nat}
    (ha : a < 2 ^ 63) (value : Word) (b : Address) :
    (m.tape.set a value).get b = s.memory.set ⟨a, ha⟩ value b := by
  unfold Memory.set
  simp only [ht.get_set, h.memory b, Fin.ext_iff]

/-- A word with an address stands for its cell. -/
theorem run_address_of_some {w : Word} {a : Nat} (ha : w.address? = some a) (s : State) :
    (address w).run s = .ok ⟨a, Word.lt_of_address?_eq_some ha⟩ s := by
  have hvalue := Word.address?_eq_some_iff.mp ha
  have hnat : w.toInt.toNat = a := by omega
  unfold address
  rw [dif_pos (by omega)]
  simp only [hnat, EStateM.run_pure]

/-- A word without an address is refused. -/
theorem run_address_of_none {w : Word} (hw : w.address? = none) (s : State) :
    (address w).run s = .error .negativeAddress s := by
  have hneg := Word.address?_eq_none_iff.mp hw
  rw [Int64.lt_iff_toInt_lt, Int64.toInt_zero] at hneg
  unfold address
  rw [dif_neg (by omega), Outcome.run_throw]

/-- The value of a cell is read. -/
theorem run_peek_of_some {w : Word} {a : Nat} (ha : w.address? = some a) (s : State) :
    (peek w).run s = .ok (s.memory ⟨a, Word.lt_of_address?_eq_some ha⟩) s := by
  unfold peek
  simp only [EStateM.run_bind, run_address_of_some ha, EStateM.run_get, EStateM.run_pure]

/-- No cell below the first is read. -/
theorem run_peek_of_none {w : Word} (hw : w.address? = none) (s : State) :
    (peek w).run s = .error .negativeAddress s := by
  unfold peek
  simp only [EStateM.run_bind, run_address_of_none hw]

/-- Reading a cell of the function is reading it on the tape. -/
theorem run_peek {m : Machine} {s : State} (h : Agrees m s) (w : Word) :
    (peek w).run s = settle s ((m.tape.read? w).elim (.error .negativeAddress) .ok) := by
  unfold Tape.read?
  cases hw : w.address? with
  | none => simp only [run_peek_of_none hw, Option.map_none, Option.elim_none, settle]
  | some a =>
    have hcell := h.memory ⟨a, Word.lt_of_address?_eq_some hw⟩
    simp only [run_peek_of_some hw, Option.map_some, hcell, Option.elim_some, settle]

/-- A parameter is passed. -/
theorem run_pass (s : State) (start : Word) (n : Nat) :
    (pass start n).run s = .ok (start + Int64.ofNat n) (s.past start n) := by
  simp only [pass, EStateM.run_bind, EStateM.run_modify, EStateM.run_pure, wrap_add, State.past]

/-- The relative base is added. -/
private theorem run_fromBase (s : State) (offset : Word) :
    (fromBase offset).run s = .ok (offset + s.base) s := by
  have hsum : wrap (s.base.toInt + offset.toInt) = offset + s.base := by
    rw [wrap_add_toInt, Int64.add_comm]
  exact congrArg (EStateM.Result.ok · s) hsum

/-- Without an input there is none to take. -/
theorem run_takeInput_of_nil {s : State} (hinputs : s.inputs = []) :
    takeInput.run s = .error .inputExhausted s := by
  simp only [takeInput, EStateM.run_bind, EStateM.run_get, hinputs, Outcome.run_throw]

/-- The first input is taken, and the others are left. -/
theorem run_takeInput_of_cons {s : State} {value : Word} {rest : List Word}
    (hinputs : s.inputs = value :: rest) :
    takeInput.run s = .ok value { s with inputs := rest } := by
  simp only [takeInput, EStateM.run_bind, EStateM.run_get, hinputs, EStateM.run_modify,
    EStateM.run_pure]

/-- Both machines give a parameter the same address, and the plain machine is then
past it. -/
theorem run_effective {m : Machine} {s : State} (h : Agrees m s) (word : Word) {n : Nat}
    (hn : 1 ≤ n) (hn' : n ≤ 3) :
    (effective m.ip word n).run s = settle (s.past m.ip n) (m.address word n) := by
  have hdigit := Instruction.toInt_modeDigit word hn hn'
  change _ = modeDigit word n at hdigit
  have hpeek := run_peek (h.past m.ip n) (m.ip + Int64.ofNat n)
  unfold effective Machine.address
  simp only [EStateM.run_bind, run_pass]
  generalize Instruction.modeDigit word n = digit at hdigit
  have hmode (mode : Mode) (hvalue : modeDigit word n = mode.number.toInt) :
      Mode.ofNumber? digit = some mode :=
    Mode.ofNumber?_eq_some_iff.mpr (Int64.toInt_inj.mp (hdigit.trans hvalue))
  split
  case h_1 hvalue =>
    simp only [hmode .position (by rw [hvalue]; decide), hpeek]
    cases m.tape.read? (m.ip + Int64.ofNat n) <;> simp only [Option.elim_none, Option.elim_some]
  case h_2 hvalue =>
    simp only [hmode .immediate (by rw [hvalue]; decide), EStateM.run_pure, settle]
  case h_3 hvalue =>
    simp only [hmode .relative (by rw [hvalue]; decide), hpeek, EStateM.run_bind]
    cases m.tape.read? (m.ip + Int64.ofNat n) with
    | none => simp only [Option.elim_none, settle]
    | some offset =>
      have hbase : (s.past m.ip n).base = m.base := h.base.symm
      simp only [Option.elim_some, settle, run_fromBase, hbase]
  case h_4 hzero hone htwo =>
    have hnone : Mode.ofNumber? digit = none := by
      rw [Mode.ofNumber?_eq_none_iff]
      rintro mode rfl
      cases mode with
      | position => exact hzero (by rw [← hdigit]; decide)
      | immediate => exact hone (by rw [← hdigit]; decide)
      | relative => exact htwo (by rw [← hdigit]; decide)
    simp only [hnone, settle, Outcome.run_throw, ← hdigit, wrap, Int64.ofInt_toInt]

/-- Both machines give a parameter the same value. -/
theorem run_operand {m : Machine} {s : State} (h : Agrees m s) (word : Word) {n : Nat}
    (hn : 1 ≤ n) (hn' : n ≤ 3) :
    (operand m.ip word n).run s =
      settle (s.past m.ip n) ((m.load word n).mapError Machine.Failure.cause) := by
  unfold operand Machine.load
  rw [EStateM.run_bind, run_effective h word hn hn']
  cases m.address word n with
  | error cause => rfl
  | ok addr =>
    simp only [settle, run_peek (h.past m.ip n)]
    cases m.tape.read? addr <;> rfl

/-- A digit is that of a value exactly when it says so on both machines. -/
theorem modeDigit_eq_one_iff (word : Word) {n : Nat} (hn : 1 ≤ n) (hn' : n ≤ 3) :
    modeDigit word n = 1 ↔ Instruction.modeDigit word n = Mode.immediate.number := by
  have hone : Mode.immediate.number.toInt = 1 := by decide
  rw [← Int64.toInt_inj, hone, Instruction.toInt_modeDigit word hn hn', modeDigit]

/-- The plain machine stores where the machine finds its destination. -/
theorem run_store_of_ok {m : Machine} {s : State} (h : Agrees m s) {word : Word} {n a : Nat}
    (hn : 1 ≤ n) (hn' : n ≤ 3) (hdestination : m.destination word n = .ok a) (value : Word) :
    ∃ ha : a < 2 ^ 63, (store m.ip word n value).run s =
      .ok () { s.past m.ip n with memory := s.memory.set ⟨a, ha⟩ value } := by
  unfold Machine.destination at hdestination
  unfold store
  by_cases himmediate : modeDigit word n = 1
  · rw [if_pos ((modeDigit_eq_one_iff word hn hn').mp himmediate)] at hdestination
    cases hdestination
  · rw [if_neg (mt (modeDigit_eq_one_iff word hn hn').mpr himmediate)] at hdestination
    rw [if_neg himmediate, EStateM.run_bind, run_effective h word hn hn']
    cases haddress : m.address word n with
    | error cause => simp [haddress] at hdestination
    | ok addr =>
      cases hcell : addr.address? with
      | none => simp [haddress, hcell] at hdestination
      | some b =>
        have hb : b = a := by simpa [haddress, hcell] using hdestination
        subst hb
        refine ⟨Word.lt_of_address?_eq_some hcell, ?_⟩
        simp only [settle, EStateM.run_bind, run_address_of_some hcell, EStateM.run_modify]
        rfl

/-- The plain machine refuses a destination for the same cause. -/
theorem run_store_of_error {m : Machine} {s : State} (h : Agrees m s) {word : Word} {n : Nat}
    (hn : 1 ≤ n) (hn' : n ≤ 3) {failure : Machine.Failure}
    (hdestination : m.destination word n = .error failure) (value : Word) :
    (store m.ip word n value).run s = .error failure.cause (s.past m.ip n) := by
  unfold Machine.destination at hdestination
  unfold store
  by_cases himmediate : modeDigit word n = 1
  · rw [if_pos ((modeDigit_eq_one_iff word hn hn').mp himmediate)] at hdestination
    rw [if_pos himmediate, EStateM.run_bind, run_pass]
    cases hdestination
    rfl
  · rw [if_neg (mt (modeDigit_eq_one_iff word hn hn').mpr himmediate)] at hdestination
    rw [if_neg himmediate, EStateM.run_bind, run_effective h word hn hn']
    cases haddress : m.address word n with
    | error cause =>
      have hfailure : ⟨cause, n⟩ = failure := by simpa [haddress] using hdestination
      subst hfailure
      rfl
    | ok addr =>
      cases hcell : addr.address? with
      | none =>
        have hfailure : ⟨.negativeAddress, n⟩ = failure := by
          simpa [haddress, hcell] using hdestination
        subst hfailure
        simp only [settle, EStateM.run_bind, run_address_of_none hcell]
      | some b => simp [haddress, hcell] at hdestination

end TapeMachine.Plain
