import Mathlib.Algebra.Group.Int.Defs
import Mathlib.Algebra.Group.Nat.Defs
import TapeMachine.Instruction

/-!
# Digits of instruction words

The numbers of operations and modes name them uniquely, and the digits of a word
are those of its value, by division toward zero.
-/

namespace TapeMachine

/-- A number stands for the operation that has it. -/
theorem Opcode.ofNumber?_eq_some_iff {n : Word} {op : Opcode} :
    Opcode.ofNumber? n = some op ↔ n = op.number := by
  constructor
  · intro hfind
    have hnumber := List.find?_some hfind
    exact (beq_iff_eq.mp hnumber).symm
  · rintro rfl
    cases op <;> decide

/-- A number that no operation has stands for none. -/
theorem Opcode.ofNumber?_eq_none_iff {n : Word} :
    Opcode.ofNumber? n = none ↔ ∀ op : Opcode, n ≠ op.number := by
  simp only [Option.eq_none_iff_forall_ne_some, ne_eq, Opcode.ofNumber?_eq_some_iff]

/-- A digit stands for the mode that has it. -/
theorem Mode.ofNumber?_eq_some_iff {digit : Word} {mode : Mode} :
    Mode.ofNumber? digit = some mode ↔ digit = mode.number := by
  unfold Mode.ofNumber?
  constructor
  · intro hdigit
    split at hdigit
    · cases hdigit
      assumption
    · split at hdigit
      · cases hdigit
        assumption
      · split at hdigit
        · cases hdigit
          assumption
        · cases hdigit
  · rintro rfl
    cases mode <;> decide

/-- A digit that no mode has stands for none. -/
theorem Mode.ofNumber?_eq_none_iff {digit : Word} :
    Mode.ofNumber? digit = none ↔ ∀ mode : Mode, digit ≠ mode.number := by
  simp only [Option.eq_none_iff_forall_ne_some, ne_eq, Mode.ofNumber?_eq_some_iff]

/-- An operation has two digits. -/
theorem Opcode.number_bounds (op : Opcode) : 0 ≤ op.number.toInt ∧ op.number.toInt < 100 := by
  cases op <;> decide

/-- No operation has more than three parameters. -/
theorem Opcode.arity_le_three (op : Opcode) : op.arity ≤ 3 := by
  cases op <;> decide

/-- The number of a mode is one digit. -/
theorem Mode.numbers_bounds (modes : List Mode) :
    ∀ digit ∈ modes.map Mode.number, 0 ≤ digit.toInt ∧ digit.toInt < 10 := by
  intro digit hdigit
  obtain ⟨mode, _, rfl⟩ := List.mem_map.mp hdigit
  cases mode <;> decide

namespace Instruction

/-- The operation digits of a word are those of its value. -/
theorem toInt_opDigits (word : Word) : (opDigits word).toInt = word.toInt.tmod 100 := by
  rw [opDigits, Int64.toInt_mod]
  rfl

/-- The mode digits of a word are those of its value. -/
theorem toInt_modeDigit (word : Word) {n : Nat} (hn : 1 ≤ n) (hn' : n ≤ 3) :
    (modeDigit word n).toInt = (word.toInt.tdiv (10 ^ (n + 1))).tmod 10 := by
  obtain rfl | rfl | rfl : n = 1 ∨ n = 2 ∨ n = 3 := by omega
  all_goals
    unfold modeDigit modeWeight
    rw [Int64.toInt_mod, Int64.toInt_div_of_ne_right _ _ (by decide)]
    rfl

/-- The weight of a mode is a power of ten. -/
private theorem toInt_modeWeight {n : Nat} (hn : 1 ≤ n) (hn' : n ≤ 3) :
    (modeWeight n).toInt = 10 ^ (n + 1) := by
  obtain rfl | rfl | rfl : n = 1 ∨ n = 2 ∨ n = 3 := by omega
  all_goals decide

/-- A mode digit is added above the digits of a word. -/
theorem toInt_add_mode {w mode : Word} {n : Nat} (hn : 1 ≤ n) (hn' : n ≤ 3)
    (hw : 0 ≤ w.toInt) (hw' : w.toInt < 10 ^ (n + 1)) (hmode : 0 ≤ mode.toInt)
    (hmode' : mode.toInt < 10) :
    (w + mode * modeWeight n).toInt = w.toInt + mode.toInt * 10 ^ (n + 1) := by
  rw [Int64.toInt_add, Int64.toInt_mul, toInt_modeWeight hn hn']
  obtain rfl | rfl | rfl : n = 1 ∨ n = 2 ∨ n = 3 := by omega
  all_goals
    simp only [Nat.reduceAdd] at hw' ⊢
    rw [Int.bmod_eq_of_le (n := mode.toInt * _) (by omega) (by omega)]
    exact Int.bmod_eq_of_le (by omega) (by omega)

/-- Adding mode digits keeps the digits below them, and each is found at its own
place. -/
theorem digits_addModes {modes : List Word}
    (hmodes : ∀ mode ∈ modes, 0 ≤ mode.toInt ∧ mode.toInt < 10) {n : Nat} (hn : 1 ≤ n)
    (hn' : n + modes.length ≤ 4) {w : Word} (hw : 0 ≤ w.toInt) (hw' : w.toInt < 10 ^ (n + 1)) :
    0 ≤ (addModes n w modes).toInt ∧
      (addModes n w modes).toInt % 10 ^ (n + 1) = w.toInt ∧
      ∀ i (hi : i < modes.length),
        (addModes n w modes).toInt / 10 ^ (n + i + 1) % 10 = modes[i].toInt := by
  induction modes generalizing n w with
  | nil => exact ⟨hw, Int.emod_eq_of_lt hw hw', fun i hi => absurd hi (Nat.not_lt_zero i)⟩
  | cons mode modes ih =>
    have hlength : n + 1 + modes.length ≤ 4 := by
      rw [List.length_cons] at hn'
      omega
    obtain ⟨hmode, hmode'⟩ := hmodes mode (by simp)
    have hsum := toInt_add_mode hn (by omega) hw hw' hmode hmode'
    have hplace : n = 1 ∨ n = 2 ∨ n = 3 := by omega
    have hnonneg : 0 ≤ (w + mode * modeWeight n).toInt := by
      rw [hsum]
      obtain rfl | rfl | rfl := hplace <;> omega
    have hbound : (w + mode * modeWeight n).toInt < 10 ^ (n + 1 + 1) := by
      rw [hsum]
      obtain rfl | rfl | rfl := hplace <;> omega
    have hdigits := ih (fun m hm => hmodes m (List.mem_cons_of_mem mode hm))
      (show 1 ≤ n + 1 by omega) hlength hnonneg hbound
    rw [addModes]
    generalize addModes (n + 1) (w + mode * modeWeight n) modes = r at hdigits
    obtain ⟨hr, hlow, hdigits⟩ := hdigits
    rw [hsum] at hlow
    refine ⟨hr, ?_, fun i hi => ?_⟩
    · obtain rfl | rfl | rfl := hplace <;> simp only [Nat.reduceAdd] at * <;> omega
    · cases i with
      | zero =>
        rw [List.getElem_cons_zero]
        obtain rfl | rfl | rfl := hplace <;> simp only [Nat.reduceAdd] at * <;> omega
      | succ i =>
        have hdigit := hdigits i (by simpa using hi)
        rwa [show n + 1 + i + 1 = n + (i + 1) + 1 by omega] at hdigit

/-- The word of an operation and modes has the operation in its low digits. -/
theorem opDigits_addModes {op : Word} {modes : List Word} (hop : 0 ≤ op.toInt)
    (hop' : op.toInt < 100) (hmodes : ∀ mode ∈ modes, 0 ≤ mode.toInt ∧ mode.toInt < 10)
    (hlength : modes.length ≤ 3) : opDigits (addModes 1 op modes) = op := by
  obtain ⟨hnonneg, hlow, _⟩ := digits_addModes hmodes (Nat.le_refl 1) (by omega) hop hop'
  rw [← Int64.toInt_inj, toInt_opDigits, Int.tmod_eq_emod_of_nonneg hnonneg]
  exact hlow

/-- The word of an operation and modes has each mode in its digit. -/
theorem modeDigit_addModes {op : Word} {modes : List Word} (hop : 0 ≤ op.toInt)
    (hop' : op.toInt < 100) (hmodes : ∀ mode ∈ modes, 0 ≤ mode.toInt ∧ mode.toInt < 10)
    (hlength : modes.length ≤ 3) {i : Nat} (hi : i < modes.length) :
    modeDigit (addModes 1 op modes) (i + 1) = modes[i] := by
  obtain ⟨hnonneg, _, hdigits⟩ := digits_addModes hmodes (Nat.le_refl 1) (by omega) hop hop'
  have hplace : 1 + i + 1 = i + 1 + 1 := by omega
  rw [← Int64.toInt_inj, toInt_modeDigit _ (by omega) (by omega),
    Int.tdiv_eq_ediv_of_nonneg hnonneg, Int.tmod_eq_emod_of_nonneg, ← hplace, hdigits i hi]
  exact Int.ediv_nonneg hnonneg (by rw [← hplace]; exact Int.pow_nonneg (by decide))

/-- An encoded instruction names its operation. -/
theorem ofNumber?_opDigits_encode (op : Opcode) {modes : List Mode} (hlength : modes.length ≤ 3) :
    Opcode.ofNumber? (opDigits (encode op modes)) = some op := by
  obtain ⟨hop, hop'⟩ := op.number_bounds
  rw [encode, opDigits_addModes hop hop' (Mode.numbers_bounds modes) (by simpa using hlength)]
  exact Opcode.ofNumber?_eq_some_iff.mpr rfl

/-- An encoded instruction names the mode of each parameter. -/
theorem ofNumber?_modeDigit_encode (op : Opcode) {modes : List Mode} (hlength : modes.length ≤ 3)
    {i : Nat} (hi : i < modes.length) :
    Mode.ofNumber? (modeDigit (encode op modes) (i + 1)) = some modes[i] := by
  obtain ⟨hop, hop'⟩ := op.number_bounds
  rw [encode, modeDigit_addModes hop hop' (Mode.numbers_bounds modes) (by simpa using hlength)
    (by simpa using hi), List.getElem_map]
  exact Mode.ofNumber?_eq_some_iff.mpr rfl

/-- An encoded instruction names the modes that it was made of. -/
theorem map_modeDigit_encode (op : Opcode) {modes : List Mode} (hlength : modes.length ≤ 3) :
    (List.range modes.length).map
      (fun n => Mode.ofNumber? (modeDigit (encode op modes) (n + 1))) = modes.map some := by
  apply List.ext_getElem
  · simp
  · intro i hi hi'
    rw [List.length_map] at hi'
    simp [ofNumber?_modeDigit_encode op hlength hi']

end Instruction

end TapeMachine
