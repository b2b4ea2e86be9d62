import Mathlib.Algebra.Group.Int.Defs
import Mathlib.Algebra.Group.Nat.Defs
import TapeMachine.Machine.Run
import TapeMachine.Proofs.Execution
import TapeMachine.Proofs.InstructionWord

/-!
# Decoding of instruction words

The operation and the three modes of a word are its five low decimal digits, and all of them
have the sign of the word. So they are as good as the remainder by 100000: one is put
together from the other, and a machine executes a word as it executes this remainder. The
digits above show only where a verbose machine names a word that is no instruction.
-/

namespace TapeMachine

namespace Instruction

/-! ## Digits with a sign -/

/-- Division toward zero takes from a number the digits of its absolute value, and gives them
the sign of the number. -/
theorem digits_cases (a : Int) :
    ∃ v : Nat, (a = v ∧ ∀ b c : Nat, (a.tdiv b).tmod c = ((v / b % c : Nat) : Int)) ∨
      (a = -(v : Int) ∧ ∀ b c : Nat, (a.tdiv b).tmod c = -((v / b % c : Nat) : Int)) := by
  obtain ⟨v, rfl | rfl⟩ := Int.eq_nat_or_neg a
  · exact ⟨v, .inl ⟨rfl, fun b c => rfl⟩⟩
  · refine ⟨v, .inr ⟨rfl, fun b c => ?_⟩⟩
    rw [Int.neg_tdiv, Int.neg_tmod]
    rfl

/-- Digits are small, and not of opposite sign to the number that they were taken from. -/
theorem digits_bounds (a : Int) (b : Nat) {c : Nat} (hc : 0 < c) :
    ((a.tdiv b).tmod c).natAbs < c ∧ 0 ≤ (a.tdiv b).tmod c * a := by
  obtain ⟨v, hcases⟩ := digits_cases a
  have hlt : v / b % c < c := Nat.mod_lt _ hc
  have hnonneg : 0 ≤ ((v / b % c : Nat) : Int) * v :=
    Int.mul_nonneg (Int.natCast_nonneg _) (Int.natCast_nonneg _)
  rcases hcases with ⟨ha, hdigits⟩ | ⟨ha, hdigits⟩
  · rw [hdigits, ha]
    exact ⟨by omega, hnonneg⟩
  · rw [hdigits, ha, Int.neg_mul_neg]
    exact ⟨by omega, hnonneg⟩

/-- A remainder keeps the digits that it reaches. -/
theorem digits_tmod (a : Int) (b c k : Nat) :
    ((a.tmod (b * (c * k) : Nat)).tdiv b).tmod c = (a.tdiv b).tmod c := by
  have hlow (v : Nat) : v % (b * (c * k)) / b % c = v / b % c := by
    rw [Nat.mod_mul_right_div_self, Nat.mod_mul_right_mod]
  obtain ⟨v, rfl | rfl⟩ := Int.eq_nat_or_neg a
  · exact congrArg Int.ofNat (hlow v)
  · simp only [Int.neg_tmod, Int.neg_tdiv]
    exact congrArg (fun n => -Int.ofNat n) (hlow v)

/-! ## The digits of a word -/

/-- The operation is the two last digits. -/
theorem toInt_opDigits_eq (w : Word) :
    (opDigits w).toInt = (w.toInt.tdiv (1 : Nat)).tmod (100 : Nat) := by
  rw [toInt_opDigits]
  simp

/-- The mode of parameter `n` is one digit, the one of place `n + 1`. -/
theorem toInt_modeDigit_eq (w : Word) {n : Nat} (hn : 1 ≤ n) (hn' : n ≤ 3) :
    (modeDigit w n).toInt = (w.toInt.tdiv (10 ^ (n + 1) : Nat)).tmod (10 : Nat) := by
  rw [toInt_modeDigit w hn hn']
  simp

/-- The remainder of a word is that of its value. -/
theorem toInt_remainder (w : Word) : (w % 100000).toInt = w.toInt.tmod 100000 :=
  Int64.toInt_mod w 100000

/-- The digits of a word make up its remainder. -/
theorem sum_digits (w : Word) :
    (opDigits w).toInt + 100 * (modeDigit w 1).toInt + 1000 * (modeDigit w 2).toInt +
      10000 * (modeDigit w 3).toInt = w.toInt.tmod 100000 := by
  have hremainder : w.toInt.tmod 100000 = (w.toInt.tdiv (1 : Nat)).tmod (100000 : Nat) := by simp
  have hmode (n : Nat) (hn : 1 ≤ n) (hn' : n ≤ 3) := toInt_modeDigit_eq w hn hn'
  rw [toInt_opDigits_eq, hmode 1 (by decide) (by decide), hmode 2 (by decide) (by decide),
    hmode 3 (by decide) (by decide), hremainder]
  obtain ⟨v, ⟨_, hdigits⟩ | ⟨_, hdigits⟩⟩ := digits_cases w.toInt
  · simp only [hdigits, Nat.reduceAdd, Nat.reducePow]
    omega
  · simp only [hdigits, Nat.reduceAdd, Nat.reducePow]
    omega

/-- Two words with the same operation and the same modes. -/
structure SameDigits (v w : Word) : Prop where
  op : opDigits v = opDigits w
  mode : ∀ {n}, 1 ≤ n → n ≤ 3 → modeDigit v n = modeDigit w n

/-- A word has the digits of its remainder. -/
theorem sameDigits_remainder (w : Word) : SameDigits (w % 100000) w where
  op := by
    rw [← Int64.toInt_inj, toInt_opDigits_eq, toInt_opDigits_eq, toInt_remainder]
    exact digits_tmod w.toInt 1 100 1000
  mode {n} hn hn' := by
    rw [← Int64.toInt_inj, toInt_modeDigit_eq _ hn hn', toInt_modeDigit_eq _ hn hn',
      toInt_remainder]
    obtain rfl | rfl | rfl : n = 1 ∨ n = 2 ∨ n = 3 := by omega
    · exact digits_tmod w.toInt (10 ^ 2) 10 100
    · exact digits_tmod w.toInt (10 ^ 3) 10 10
    · exact digits_tmod w.toInt (10 ^ 4) 10 1

/-! ## Putting words together -/

/-- A multiple of a value is a product of words. -/
theorem ofInt_mul_toInt (k : Int) (x : Word) :
    Int64.ofInt (k * x.toInt) = x * Int64.ofInt k := by
  rw [Int64.ofInt_mul, Int64.ofInt_toInt, Int64.mul_comm]

/-- An operation and three modes are put together as digits, whatever their signs. -/
private theorem addModes_three (op x y z : Word) :
    addModes 1 op [x, y, z] =
      Int64.ofInt (op.toInt + 100 * x.toInt + 1000 * y.toInt + 10000 * z.toInt) := by
  rw [Int64.ofInt_add, Int64.ofInt_add, Int64.ofInt_add, ofInt_mul_toInt, ofInt_mul_toInt,
    ofInt_mul_toInt, Int64.ofInt_toInt]
  rfl

/-- The digits of a word are put together to its remainder. -/
theorem encode?_digits (w : Word) :
    encode? (opDigits w) [modeDigit w 1, modeDigit w 2, modeDigit w 3] = some (w % 100000) := by
  have hword : addModes 1 (opDigits w) [modeDigit w 1, modeDigit w 2, modeDigit w 3] =
      w % 100000 := by
    rw [addModes_three, sum_digits, ← toInt_remainder, Int64.ofInt_toInt]
  exact (if_pos (Nat.le_refl 3)).trans (congrArg some hword)

/-- Modes are added one after the other. -/
private theorem addModes_append (n : Nat) (w : Word) (modes more : List Word) :
    addModes n w (modes ++ more) = addModes (n + modes.length) (addModes n w modes) more := by
  induction modes generalizing n w with
  | nil => rfl
  | cons mode modes ih =>
    rw [List.cons_append, addModes, ih, addModes, List.length_cons, Nat.add_right_comm,
      Nat.add_assoc]

/-- Modes of zero add nothing. -/
private theorem addModes_replicate_zero (n : Nat) (w : Word) (k : Nat) :
    addModes n w (List.replicate k 0) = w := by
  induction k generalizing n with
  | zero => rfl
  | succ k ih => rw [List.replicate_succ, addModes, Int64.zero_mul, Int64.add_zero, ih]

/-- An operation and at most three modes are found again in the word that they are put
together to. A mode that was left out is found as a zero. -/
theorem encode?_eq_some {op : Word} {modes : List Word} (hop : 0 ≤ op) (hop' : op ≤ 99)
    (hlength : modes.length ≤ 3) (hmodes : ∀ mode ∈ modes, 0 ≤ mode ∧ mode ≤ 9) :
    ∃ code, encode? op modes = some code ∧ opDigits code = op ∧
      ∀ i < 3, modeDigit code (i + 1) = modes[i]?.getD 0 := by
  simp only [Int64.le_iff_toInt_le] at hop hop' hmodes
  have hop'' : op.toInt < 100 := Int.lt_add_one_of_le hop'
  -- Modes that are left out are the same as modes that are zero.
  set padded := modes ++ List.replicate (3 - modes.length) 0 with hpadded
  have hword : addModes 1 op modes = addModes 1 op padded := by
    rw [hpadded, addModes_append, addModes_replicate_zero]
  have hthree : padded.length = 3 := by
    rw [hpadded, List.length_append, List.length_replicate]
    omega
  have hdigits : ∀ mode ∈ padded, 0 ≤ mode.toInt ∧ mode.toInt < 10 := by
    intro mode hmode
    rcases List.mem_append.mp hmode with hmode | hmode
    · exact ⟨(hmodes mode hmode).1, Int.lt_add_one_of_le (hmodes mode hmode).2⟩
    · rw [List.eq_of_mem_replicate hmode]
      decide
  refine ⟨addModes 1 op modes, if_pos hlength, ?_, fun i hi => ?_⟩
  · rw [hword, opDigits_addModes hop hop'' hdigits (by omega)]
  · have hget : padded[i]? = some (modes[i]?.getD 0) := by
      rw [hpadded, List.getElem?_append, List.getElem?_replicate]
      split
      · next hin => rw [List.getElem?_eq_getElem hin, Option.getD_some]
      · next hout =>
        rw [if_pos (by omega), List.getElem?_eq_none (by omega), Option.getD_none]
    rw [hword, modeDigit_addModes hop hop'' hdigits (by omega) (show i < padded.length by omega)]
    exact Option.some.inj ((List.getElem?_eq_getElem _).symm.trans hget)

/-- A negative word names no operation. -/
private theorem ofNumber?_opDigits_of_neg {w : Word} (hw : w < 0) :
    Opcode.ofNumber? (opDigits w) = none := by
  have hneg : w.toInt < 0 := Int64.lt_iff_toInt_lt.mp hw
  have hsign := (digits_bounds w.toInt 1 (show 0 < 100 by decide)).2
  rw [← toInt_opDigits_eq] at hsign
  rw [Opcode.ofNumber?_eq_none_iff]
  intro op hop
  have hpos : 0 < op.number.toInt := by cases op <;> decide
  rw [hop] at hsign
  exact absurd hsign (Int.not_le.mpr (Int.mul_neg_of_pos_of_neg hpos hneg))

/-- The description of an instruction shows its digits only. -/
theorem describe_congr {v w : Word} (h : SameDigits v w) {op : Opcode}
    (hop : Opcode.ofNumber? (opDigits w) = some op) : describe v = describe w := by
  have hmodes : (List.range op.arity).map (fun n => Mode.describe (modeDigit v (n + 1))) =
      (List.range op.arity).map fun n => Mode.describe (modeDigit w (n + 1)) := by
    apply List.map_congr_left
    intro n hn
    have hle := op.arity_le_three
    have hlt := List.mem_range.mp hn
    rw [h.mode (by omega) (by omega)]
  unfold describe
  rw [h.op, hop]
  dsimp only
  rw [hmodes]

end Instruction

/-! ## Executing words with the same digits -/

/-- The same error, found in the instruction `word`. -/
def MachineError.inWord (word : Word) : MachineError → MachineError
  | fault f => fault { f with word }
  | e => e

namespace Machine

open Instruction (SameDigits)

/-- The same outcome, of the instruction `word`. -/
def Tick.ofWord (t : Tick) (word : Word) : Tick :=
  { t with result := t.result.mapError (MachineError.inWord word) }

/-- With another word in the place of its own, a fault is the fault of that word. -/
private theorem faulted_ofWord (m : Machine) (v w : Word) (failure : Failure) (inputs : List Word) :
    (m.faulted v failure inputs).ofWord w = m.faulted w failure inputs := rfl

/-- The word has a part in the end of an instruction only if it fails. -/
private theorem conclude_ofWord (m : Machine) (v w next : Word) (left : List Word)
    (examined : Except Failure Effect) :
    (m.conclude v next left examined).ofWord w = m.conclude w next left examined := by
  cases examined with
  | error failure => rfl
  | ok e => rfl

variable {m : Machine} {v w : Word}

/-- A parameter is found by its mode only. -/
theorem address_congr (h : SameDigits v w) {n : Nat} (hn : 1 ≤ n) (hn' : n ≤ 3) :
    m.address v n = m.address w n := by
  unfold address
  rw [h.mode hn hn']

/-- The value of a parameter depends on the digits of the word only. -/
theorem load_congr (h : SameDigits v w) {n : Nat} (hn : 1 ≤ n) (hn' : n ≤ 3) :
    m.load v n = m.load w n := by
  unfold load
  rw [address_congr h hn hn']

/-- The destination of a parameter depends on the digits of the word only. -/
theorem destination_congr (h : SameDigits v w) {n : Nat} (hn : 1 ≤ n) (hn' : n ≤ 3) :
    m.destination v n = m.destination w n := by
  unfold destination
  rw [address_congr h hn hn', h.mode hn hn']

/-- The effect depends on the digits of the word only. -/
private theorem effect_congr (h : SameDigits v w) (inputs : List Word) (op : Opcode) :
    m.effect v inputs op = m.effect w inputs op := by
  have hfirst := load_congr (m := m) h (n := 1) (by decide) (by decide)
  have hsecond := load_congr (m := m) h (n := 2) (by decide) (by decide)
  have hcombine (f : Word → Word → Word) : m.combine v f = m.combine w f := by
    unfold combine
    rw [hfirst, hsecond, destination_congr h (by decide) (by decide)]
  have hbranch (taken : Word → Bool) : m.branch v taken = m.branch w taken := by
    unfold branch
    rw [hfirst, hsecond]
  unfold effect
  cases op with
  | add | mul | lessThan | equal => exact hcombine _
  | jumpTrue | jumpFalse => exact hbranch _
  | input =>
    dsimp only
    rw [destination_congr h (by decide) (by decide)]
  | output | adjustBase =>
    dsimp only
    rw [hfirst]
  | halt => rfl

/-- Words with the same digits are executed in the same way. Only a fault names the word. -/
theorem execute_congr (h : SameDigits v w) (m : Machine) (inputs : List Word) :
    (m.execute v inputs).ofWord w = m.execute w inputs := by
  cases hop : Opcode.ofNumber? (Instruction.opDigits w) with
  | none =>
    have hop' : Opcode.ofNumber? (Instruction.opDigits v) = none := by rw [h.op, hop]
    rw [execute_of_none hop, execute_of_none hop', faulted_ofWord, h.op]
  | some op =>
    have hop' : Opcode.ofNumber? (Instruction.opDigits v) = some op := by rw [h.op, hop]
    rw [execute_of_some hop, execute_of_some hop', conclude_ofWord, effect_congr h]

/-- Instructions with the same digits are reported in the same way. -/
theorem executeReport_congr (h : SameDigits v w) {op : Opcode}
    (hop : Opcode.ofNumber? (Instruction.opDigits w) = some op) (m : Machine) :
    m.executeReport v = m.executeReport w := by
  unfold executeReport
  rw [Instruction.describe_congr h hop, h.op]

/-- A word that is no instruction is reported as a number. -/
theorem executeReport_of_none
    (hop : Opcode.ofNumber? (Instruction.opDigits w) = none) (m : Machine) :
    m.executeReport w =
      if m.verbose then
        [m.name ++ ": " ++ Numeral.ofWord m.ip ++ ": " ++ ("?" ++ Numeral.ofWord w)]
      else [] := by
  have hdescribe : Instruction.describe w = "?" ++ Numeral.ofWord w := by
    unfold Instruction.describe
    rw [hop]
  unfold executeReport
  rw [hop, hdescribe]
  rfl

end Machine

/-! ## Words decode uniquely -/

/-- An instruction word is decoded in one way. Its digits make up its remainder by 100000, are
small and not of opposite sign, and are put together to this remainder again. An operation and
up to three modes are decoded from the word that is put together from them. So a machine
executes a word as it executes the remainder, and reports the same of it, but for a word that
is no instruction: of this one it reports the number. A negative word is no instruction. -/
theorem Instruction.decodes_uniquely (w : Word) (m : Machine) (inputs : List Word) :
    ((opDigits w).toInt + 100 * (modeDigit w 1).toInt + 1000 * (modeDigit w 2).toInt +
        10000 * (modeDigit w 3).toInt = w.toInt.tmod 100000 ∧
      (opDigits w).toInt.natAbs < 100 ∧ 0 ≤ (opDigits w).toInt * w.toInt ∧
      (∀ n, 1 ≤ n → n ≤ 3 →
        (modeDigit w n).toInt.natAbs < 10 ∧ 0 ≤ (modeDigit w n).toInt * w.toInt) ∧
      encode? (opDigits w) [modeDigit w 1, modeDigit w 2, modeDigit w 3] = some (w % 100000) ∧
      (w % 100000).toInt = w.toInt.tmod 100000) ∧
    (∀ op modes, 0 ≤ op → op ≤ 99 → modes.length ≤ 3 → (∀ mode ∈ modes, 0 ≤ mode ∧ mode ≤ 9) →
      ∃ code, encode? op modes = some code ∧ opDigits code = op ∧
        ∀ i < 3, modeDigit code (i + 1) = modes[i]?.getD 0) ∧
    m.execute w inputs = (m.execute (w % 100000) inputs).ofWord w ∧
    m.executeReport w =
      (if (Opcode.ofNumber? (opDigits w)).isSome then m.executeReport (w % 100000)
      else if m.verbose then
        [m.name ++ ": " ++ Numeral.ofWord m.ip ++ ": " ++ ("?" ++ Numeral.ofWord w)]
      else []) ∧
    (w < 0 → (m.execute w inputs).result =
      .error (.fault ⟨m.ip, w, .unknownOpcode (opDigits w)⟩)) := by
  have hsame := sameDigits_remainder w
  refine ⟨⟨sum_digits w, ?_, ?_, fun n hn hn' => ?_, encode?_digits w, toInt_remainder w⟩,
    fun op modes hop hop' hlength hmodes => encode?_eq_some hop hop' hlength hmodes,
    (Machine.execute_congr hsame m inputs).symm, ?_, fun hw => ?_⟩
  · rw [toInt_opDigits_eq]
    exact (digits_bounds w.toInt 1 (by decide)).1
  · rw [toInt_opDigits_eq]
    exact (digits_bounds w.toInt 1 (by decide)).2
  · rw [toInt_modeDigit_eq w hn hn']
    exact digits_bounds w.toInt (10 ^ (n + 1)) (by decide)
  · cases hop : Opcode.ofNumber? (opDigits w) with
    | none => exact Machine.executeReport_of_none hop m
    | some op => exact (Machine.executeReport_congr hsame hop m).symm
  · rw [Machine.execute_of_none (ofNumber?_opDigits_of_neg hw)]
    rfl

/-- A verbose machine does not report the same of a word that is no instruction and of its
remainder. -/
theorem Machine.executeReport_ne_remainder :
    let m := { (ofImage "A" #[100000]).reset with verbose := true }
    m.tickReport = m.executeReport 100000 ∧
      m.executeReport 100000 = ["A: 0: ?100000"] ∧
      m.executeReport (100000 % 100000) = ["A: 0: ?0"] ∧
      m.executeReport 100000 ≠ m.executeReport (100000 % 100000) := by
  decide +kernel

end TapeMachine
