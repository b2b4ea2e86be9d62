import Mathlib.Algebra.Group.Int.Defs
import Mathlib.Algebra.Group.Nat.Defs
import TapeMachine.Word

/-!
# Words as addresses

A word is an address exactly when its value is not negative. These lemmas move
between a word, its value and the address.
-/

namespace TapeMachine.Word

/-- A word is no address exactly when it is negative. -/
theorem address?_eq_none_iff {w : Word} : w.address? = none ↔ w < 0 := by
  unfold address?
  split <;> simp_all

/-- The address of a word is its value. -/
theorem address?_eq_some_iff {w : Word} {a : Nat} : w.address? = some a ↔ w.toInt = a := by
  unfold address?
  by_cases hneg : w < 0
  · have hvalue : w.toInt < 0 := by simpa [Int64.lt_iff_toInt_lt] using hneg
    simp only [if_pos hneg, reduceCtorEq, false_iff]
    omega
  · have hvalue : 0 ≤ w.toInt := by simpa [Int64.lt_iff_toInt_lt] using hneg
    have hnat : w.toNatClampNeg = w.toInt.toNat := rfl
    simp only [if_neg hneg, Option.some.injEq, hnat]
    omega

/-- Addresses are below the first value that no word has. -/
theorem lt_of_address?_eq_some {w : Word} {a : Nat} (haddress : w.address? = some a) :
    a < 2 ^ 63 := by
  have hvalue := address?_eq_some_iff.mp haddress
  have hbound := w.toInt_lt
  omega

end TapeMachine.Word
