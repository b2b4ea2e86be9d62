import Mathlib.Algebra.Group.Int.Defs
import Mathlib.Algebra.Group.Nat.Defs
import Mathlib.Data.Nat.Digits.Lemmas
import TapeMachine.Numeral
import TapeMachine.Proofs.Outcome
import TapeMachine.Proofs.TextParts

/-!
# Reading numerals

Digits are read from left to right, up to the first one that leads out of range. So
digits of a base are read as their value, and a word that is written in decimal or with
the mark of another base is read as this word.
-/

namespace TapeMachine.Numeral

/-! ## Digits -/

/-- The value of a digit. -/
theorem digit?_of_isDigit {c : Char} (hc : c.isDigit = true) :
    digit? c = some (c.toNat - '0'.toNat) := by
  have hrange : '0' ≤ c ∧ c ≤ '9' := by simpa [Char.isDigit, Char.le_def] using hc
  exact if_pos hrange

/-- A decimal digit is below ten. -/
theorem digit_lt_ten {c : Char} (hc : c.isDigit = true) : c.toNat - '0'.toNat < 10 := by
  have hrange : '0'.toNat ≤ c.toNat ∧ c.toNat ≤ '9'.toNat := Char.isDigit_iff_toNat.mp hc
  have hten : '9'.toNat = '0'.toNat + 9 := rfl
  omega

/-- A digit is no letter. -/
theorem isAlpha_of_isDigit {c : Char} (hc : c.isDigit = true) : c.isAlpha = false := by
  have hrange : '0'.toNat ≤ c.toNat ∧ c.toNat ≤ '9'.toNat := Char.isDigit_iff_toNat.mp hc
  have hnine : '9'.toNat = 57 := rfl
  have hlt : c.toNat < 58 := by omega
  exact Text.of_toNat_lt (fun c => c.isDigit = true → c.isAlpha = false) (by decide) hlt hc

/-- Only the characters from `0` to `9` are digits below ten. -/
theorem isDigit_of_digit? {c : Char} {d : Nat} (hd : digit? c = some d) (hten : d < 10) :
    c.isDigit = true := by
  unfold digit? at hd
  split at hd
  · next hrange => simpa [Char.isDigit, Char.le_def] using hrange
  · split at hd
    · cases hd
      omega
    · split at hd
      · cases hd
        omega
      · cases hd

/-- The value of digits in a base, behind digits of the value `n`. -/
def valueFrom (base n : Nat) (digits : List Nat) : Nat :=
  digits.foldl (fun n d => n * base + d) n

/-- The first digit is multiplied by the base with what stands before it. -/
private theorem valueFrom_cons (base n d : Nat) (digits : List Nat) :
    valueFrom base n (d :: digits) = valueFrom base (n * base + d) digits := rfl

/-- Further digits make a number no smaller. -/
private theorem le_valueFrom {base n : Nat} {digits : List Nat} (hbase : 0 < base) :
    n ≤ valueFrom base n digits := by
  induction digits generalizing n with
  | nil => exact Nat.le_refl n
  | cons d digits ih =>
    have hstep : n ≤ n * base + d := by
      have hmul := Nat.le_mul_of_pos_right n hbase
      omega
    exact Nat.le_trans hstep ih

/-- Characters stand for digits of a base. -/
abbrev Figures (base : Nat) : List Char → List Nat → Prop :=
  List.Forall₂ fun c d => digit? c = some d ∧ d < base

/-- Digits are read as their value, unless this is out of range. -/
theorem magnitude_of_figures {base : Nat} {cs : List Char} {digits : List Nat}
    (h : Figures base cs digits) (separated : Bool) {n : Nat} (hn : n < UInt64.size) :
    magnitude base separated n cs =
      if valueFrom base n digits < UInt64.size then .value (valueFrom base n digits)
      else .overflow := by
  induction h generalizing n with
  | nil => exact (if_pos hn).symm
  | @cons c d cs digits hfirst _ ih =>
    obtain ⟨hd, hlt⟩ := hfirst
    have hmark : ¬ (separated && c == '_') = true := by
      intro hmark
      have hc : c = '_' := by simp_all
      subst hc
      cases hd
    unfold magnitude
    rw [if_neg hmark, hd]
    dsimp only
    rw [if_neg (Nat.not_le.mpr hlt), valueFrom_cons]
    by_cases hover : UInt64.size ≤ n * base + d
    · have hlarge : n * base + d ≤ valueFrom base (n * base + d) digits :=
        le_valueFrom (Nat.zero_lt_of_lt hlt)
      rw [if_pos hover, if_neg (by omega)]
    · rw [if_neg hover, ih (by omega)]

/-! ## Decimal text -/

/-- Decimal digits are figures in base ten. -/
theorem figures_of_isDigit {cs : List Char} (h : ∀ c ∈ cs, c.isDigit = true) :
    Figures 10 cs (cs.map fun c => c.toNat - '0'.toNat) := by
  rw [Figures, List.forall₂_map_right_iff, List.forall₂_same]
  intro c hc
  exact ⟨digit?_of_isDigit (h c hc), digit_lt_ten (h c hc)⟩

/-- The value of decimal digits is the one that the standard library gives them. -/
theorem valueFrom_eq_ofDigitChars (cs : List Char) (n : Nat) :
    valueFrom 10 n (cs.map fun c => c.toNat - '0'.toNat) = Nat.ofDigitChars 10 cs n := by
  rw [Nat.ofDigitChars_eq_foldl, valueFrom, List.foldl_map]
  simp only [Nat.mul_comm]

/-- The digits of a number are read as this number. -/
theorem valueFrom_toDigits (n : Nat) :
    valueFrom 10 0 ((Nat.toDigits 10 n).map fun c => c.toNat - '0'.toNat) = n := by
  rw [valueFrom_eq_ofDigitChars, Nat.ofDigitChars_ten_toDigits]

/-- The digits of a number are read as this number. -/
private theorem magnitude_toDigits (separated : Bool) {n : Nat} (hn : n < UInt64.size) :
    magnitude 10 separated 0 (Nat.toDigits 10 n) = .value n := by
  have hdigits : ∀ c ∈ Nat.toDigits 10 n, c.isDigit = true := fun c hc =>
    Nat.isDigit_of_mem_toDigits (by decide) (by decide) hc
  rw [magnitude_of_figures (figures_of_isDigit hdigits) separated (by decide), valueFrom_toDigits,
    if_pos hn]

/-- A magnitude with a sign is read as the word of this value. -/
theorem signed_value {w : Word} {n : Nat} {negative : Bool}
    (hvalue : w.toInt = if negative then -(n : Int) else n) :
    (Magnitude.value n).signed negative = .value w := by
  have hlower := w.le_toInt
  have hupper := w.toInt_lt
  have hhalf : Word.half = 2 ^ 63 := rfl
  unfold Magnitude.signed
  dsimp only
  cases negative with
  | true =>
    rw [if_pos rfl] at hvalue
    rw [if_pos rfl, if_neg (by omega), ← hvalue, Int64.ofInt_toInt]
  | false =>
    rw [if_neg (by decide)] at hvalue
    rw [if_neg (by decide), if_neg (by omega), ← Int64.ofInt_eq_ofNat, ← hvalue, Int64.ofInt_toInt]

/-- A word is written as its sign and the digits of its magnitude. -/
theorem toList_ofWord (w : Word) :
    (ofWord w).toList =
      (if w.toInt < 0 then ['-'] else []) ++ Nat.toDigits 10 w.toInt.natAbs := by
  unfold ofWord ofInt
  split <;> simp [Nat.repr_eq_ofList_toDigits]

/-- A text that does not begin with a sign has none. -/
theorem signOf_of_ne {c : Char} (hplus : c ≠ '+') (hminus : c ≠ '-') (cs : List Char) :
    signOf (c :: cs) = (false, c :: cs) := by
  unfold signOf
  split
  · next h => exact absurd (List.cons.inj h).1 hplus
  · next h => exact absurd (List.cons.inj h).1 hminus
  · rfl

/-- A digit is no sign. -/
theorem signOf_of_isDigit {c : Char} (hc : c.isDigit = true) (cs : List Char) :
    signOf (c :: cs) = (false, c :: cs) := by
  refine signOf_of_ne ?_ ?_ cs
  · rintro rfl
    cases hc
  · rintro rfl
    cases hc

/-- Digits have no sign. -/
private theorem signOf_toDigits (n : Nat) :
    signOf (Nat.toDigits 10 n) = (false, Nat.toDigits 10 n) := by
  have hdigits : ∀ c ∈ Nat.toDigits 10 n, c.isDigit = true := fun c hc =>
    Nat.isDigit_of_mem_toDigits (by decide) (by decide) hc
  cases hn : Nat.toDigits 10 n with
  | nil => exact absurd hn Nat.toDigits_ne_nil
  | cons c cs => exact signOf_of_isDigit (hdigits c (by simp [hn])) cs

/-- A word that is written in decimal is read as this word. -/
theorem readDecimal_ofWord (w : Word) : readDecimal (ofWord w).toList = .value w := by
  have hlower := w.le_toInt
  have hupper := w.toInt_lt
  have hsize : UInt64.size = 2 ^ 64 := rfl
  have hsign : signOf (ofWord w).toList =
      (decide (w.toInt < 0), Nat.toDigits 10 w.toInt.natAbs) := by
    rw [toList_ofWord]
    by_cases hneg : w.toInt < 0
    · rw [if_pos hneg, decide_eq_true hneg]
      rfl
    · rw [if_neg hneg, decide_eq_false hneg, List.nil_append, signOf_toDigits]
  have hsome : (Nat.toDigits 10 w.toInt.natAbs).isEmpty = false := by simp
  unfold readDecimal decimalMagnitude
  rw [hsign]
  simp only [hsome, Bool.false_eq_true, if_false]
  rw [magnitude_toDigits false (by omega)]
  apply signed_value
  by_cases hneg : w.toInt < 0
  · rw [decide_eq_true hneg, if_pos rfl]
    omega
  · rw [decide_eq_false hneg, if_neg (by decide)]
    omega

/-! ## Numerals in several bases -/

/-- The bases that a numeral can be written in. -/
inductive Radix where
  | decimal
  | hexadecimal
  | octal
  | binary
  deriving DecidableEq, Repr

namespace Radix

/-- The base of a radix. -/
def base : Radix → Nat
  | decimal => 10
  | hexadecimal => 16
  | octal => 8
  | binary => 2

/-- There are at least two digits. -/
private theorem one_lt_base (r : Radix) : 1 < r.base := by
  cases r <;> decide

/-- There are at most sixteen digits. -/
theorem base_le (r : Radix) : r.base ≤ 16 := by
  cases r <;> decide

/-- What stands in front of the digits. -/
def mark : Radix → List Char
  | decimal => []
  | hexadecimal => ['0', 'x']
  | octal => ['0', 'o']
  | binary => ['0', 'b']

end Radix

/-- The signs that a numeral can have. -/
inductive Sign where
  | none
  | plus
  | minus
  deriving DecidableEq, Repr

namespace Sign

/-- How a sign is written. -/
def text : Sign → List Char
  | none => []
  | plus => ['+']
  | minus => ['-']

/-- A number with a sign. -/
def apply : Sign → Nat → Int
  | minus, n => -(n : Int)
  | _, n => n

/-- Only a minus changes a magnitude. -/
theorem apply_eq (s : Sign) (n : Nat) :
    s.apply n = if decide (s = .minus) = true then -(n : Int) else n := by
  cases s <;> rfl

/-- The sign of an integer. -/
def ofInt (n : Int) : Sign := if n < 0 then minus else none

/-- A number is its magnitude under its sign. -/
private theorem apply_ofInt (n : Int) : (ofInt n).apply n.natAbs = n := by
  unfold ofInt
  split
  · change -(n.natAbs : Int) = n
    omega
  · change (n.natAbs : Int) = n
    omega

end Sign

/-! ## Signed decimals -/

/-- A text denotes a word in decimal: behind an optional sign it has at least one digit and
nothing else, and the digits with this sign are the value of the word. -/
def Denotes (cs : List Char) (w : Word) : Prop :=
  ∃ (sign : Sign) (digits : List Char), cs = sign.text ++ digits ∧ digits ≠ [] ∧
    (∀ c ∈ digits, c.isDigit = true) ∧ w.toInt = sign.apply (Nat.ofDigitChars 10 digits 0)

/-- A sign is split off, if there is one. -/
theorem exists_sign (cs : List Char) :
    ∃ sign : Sign, cs = sign.text ++ (signOf cs).2 ∧ (signOf cs).1 = decide (sign = .minus) := by
  unfold signOf
  split
  · exact ⟨.plus, rfl, rfl⟩
  · exact ⟨.minus, rfl, rfl⟩
  · exact ⟨.none, rfl, rfl⟩

/-- The sign of a text is the one that stands in front of its digits. -/
theorem signOf_text_append (sign : Sign) {c : Char} (hc : c.isDigit = true) (cs : List Char) :
    signOf (sign.text ++ c :: cs) = (decide (sign = .minus), c :: cs) := by
  cases sign with
  | none => exact signOf_of_isDigit hc cs
  | plus => rfl
  | minus => rfl

/-- Only decimal digits have a value. -/
theorem isDigit_of_magnitude {cs : List Char} {n value : Nat}
    (hvalue : magnitude 10 false n cs = .value value) : ∀ c ∈ cs, c.isDigit = true := by
  induction cs generalizing n with
  | nil => simp
  | cons c cs ih =>
    unfold magnitude at hvalue
    rw [Bool.false_and, if_neg (by decide)] at hvalue
    cases hd : digit? c with
    | none =>
      rw [hd] at hvalue
      cases hvalue
    | some d =>
      rw [hd] at hvalue
      dsimp only at hvalue
      by_cases hten : 10 ≤ d
      · rw [if_pos hten] at hvalue
        cases hvalue
      · rw [if_neg hten] at hvalue
        by_cases hover : UInt64.size ≤ n * 10 + d
        · rw [if_pos hover] at hvalue
          cases hvalue
        · rw [if_neg hover] at hvalue
          exact List.forall_mem_cons.mpr ⟨isDigit_of_digit? hd (by omega), ih hvalue⟩

/-- Digits have the value that they spell, unless this needs more than 64 bits. -/
theorem decimalMagnitude_eq_value_iff {cs : List Char} {value : Nat} :
    decimalMagnitude cs = .value value ↔
      cs ≠ [] ∧ (∀ c ∈ cs, c.isDigit = true) ∧ Nat.ofDigitChars 10 cs 0 = value ∧
        value < UInt64.size := by
  cases cs with
  | nil => simp [decimalMagnitude]
  | cons c cs =>
    have hread (h : ∀ d ∈ c :: cs, d.isDigit = true) :=
      magnitude_of_figures (figures_of_isDigit h) false (n := 0) (by decide)
    rw [valueFrom_eq_ofDigitChars] at hread
    rw [decimalMagnitude, List.isEmpty_cons, if_neg (by decide)]
    constructor
    · intro hvalue
      have hdigits := isDigit_of_magnitude hvalue
      rw [hread hdigits] at hvalue
      split at hvalue
      · next hlt =>
        cases hvalue
        exact ⟨List.cons_ne_nil _ _, hdigits, rfl, hlt⟩
      · cases hvalue
    · rintro ⟨_, hdigits, rfl, hlt⟩
      rw [hread hdigits, if_pos hlt]

/-- A magnitude with a sign is read as a word exactly when it has the value of this word. -/
theorem signed_eq_value_iff {m : Magnitude} {negative : Bool} {w : Word} :
    m.signed negative = .value w ↔
      ∃ n : Nat, m = .value n ∧ w.toInt = if negative then -(n : Int) else n := by
  refine ⟨fun hvalue => ?_, ?_⟩
  · have hhalf : Word.half = 2 ^ 63 := rfl
    unfold Magnitude.signed at hvalue
    cases m with
    | malformed | overflow => cases hvalue
    | value n =>
      refine ⟨n, rfl, ?_⟩
      dsimp only at hvalue
      cases negative with
      | true =>
        rw [if_pos rfl] at hvalue ⊢
        split at hvalue
        · cases hvalue
        · cases hvalue
          rw [Int64.toInt_ofInt_of_le (by omega) (by omega)]
      | false =>
        rw [if_neg (by decide)] at hvalue ⊢
        split at hvalue
        · cases hvalue
        · cases hvalue
          rw [Int64.toInt_ofNat_of_lt (by omega)]
  · rintro ⟨n, rfl, hvalue⟩
    exact signed_value hvalue

/-- The words that are read from decimal text are those that it denotes. -/
theorem word?_readDecimal_iff {cs : List Char} {w : Word} :
    (readDecimal cs).word? = some w ↔ Denotes cs w := by
  have hword (r : Reading) : r.word? = some w ↔ r = .value w := by
    cases r <;> simp [Reading.word?]
  rw [hword, readDecimal]
  dsimp only
  rw [signed_eq_value_iff]
  constructor
  · rintro ⟨n, hmagnitude, hvalue⟩
    obtain ⟨sign, hcs, hsign⟩ := exists_sign cs
    obtain ⟨hne, hdigits, rfl, _⟩ := decimalMagnitude_eq_value_iff.mp hmagnitude
    rw [hsign, ← Sign.apply_eq] at hvalue
    exact ⟨sign, _, hcs, hne, hdigits, hvalue⟩
  · rintro ⟨sign, digits, rfl, hne, hdigits, hvalue⟩
    have hlower := w.le_toInt
    have hupper := w.toInt_lt
    have hsize : UInt64.size = 2 ^ 64 := rfl
    rw [Sign.apply_eq] at hvalue
    have hbound : Nat.ofDigitChars 10 digits 0 < UInt64.size := by
      split at hvalue <;> omega
    have hmagnitude := decimalMagnitude_eq_value_iff.mpr ⟨hne, hdigits, rfl, hbound⟩
    obtain ⟨c, rest, rfl⟩ := List.exists_cons_of_ne_nil hne
    rw [signOf_text_append sign (hdigits c List.mem_cons_self)]
    exact ⟨_, hmagnitude, hvalue⟩

/-- A character that stands for a digit, where a letter may be a capital. -/
def Stands (c : Char) (d : Nat) : Prop := c = d.digitChar ∨ c = d.digitChar.toUpper

/-- A way to write a word: a sign, a base and digits of this base. A decimal numeral has
no zeros in front, since these announce another base. -/
structure Written (w : Word) where
  sign : Sign
  radix : Radix
  digits : List Nat
  figures : List Char
  stands : List.Forall₂ Stands figures digits
  nonempty : digits ≠ []
  bounded : ∀ d ∈ digits, d < radix.base
  leading : radix = .decimal → digits.head? = some 0 → digits = [0]
  value : w.toInt = sign.apply (Nat.ofDigits radix.base digits.reverse)

/-- The text of a numeral. -/
def Written.text {w : Word} (n : Written w) : List Char :=
  n.sign.text ++ n.radix.mark ++ n.figures

/-- A character that stands for a figure has the value of this figure. -/
theorem digit?_of_stands {c : Char} {d : Nat} (hc : Stands c d) (hd : d < 16) :
    digit? c = some d := by
  have hall : ∀ d < 16, digit? d.digitChar = some d ∧ digit? d.digitChar.toUpper = some d := by
    decide
  obtain ⟨hlower, hupper⟩ := hall d hd
  rcases hc with rfl | rfl
  · exact hlower
  · exact hupper

/-- A digit of a numeral is no sign and no underscore. -/
theorem ne_of_digit? {c : Char} {d : Nat} (hd : digit? c = some d) :
    c ≠ '+' ∧ c ≠ '-' ∧ c ≠ '_' := by
  refine ⟨?_, ?_, ?_⟩ <;>
    · rintro rfl
      cases hd

/-- The value of digits is the one that the library gives them from the right. -/
private theorem valueFrom_eq_ofDigits (base : Nat) (digits : List Nat) :
    valueFrom base 0 digits = Nat.ofDigits base digits.reverse := by
  rw [Nat.ofDigits_eq_foldr, List.foldr_reverse, valueFrom]
  congr 1
  funext n d
  simp [Nat.mul_comm, Nat.add_comm]

/-- The magnitude of digits whose base is announced. -/
theorem announcedMagnitude_of_figures {cs figures : List Char} {digits : List Nat} {base : Nat}
    (hcs : cs ≠ []) (hannounced : announced cs = (base, figures)) (hplain : '_' ∉ cs)
    (hfigures : Figures base figures digits) (hvalue : valueFrom base 0 digits < UInt64.size) :
    announcedMagnitude cs = .value (valueFrom base 0 digits) := by
  have hsome : cs.isEmpty = false := by simpa using hcs
  have hmark : cs.contains '_' = false := by simpa using hplain
  unfold announcedMagnitude
  simp only [hsome, Bool.false_eq_true, if_false, hannounced, hmark, Bool.false_and]
  rw [magnitude_of_figures hfigures true (by decide), if_pos hvalue]

/-- Characters that stand for digits of the base are figures in it. -/
private theorem figures_of_stands {base : Nat} {figures : List Char} {digits : List Nat}
    (hbase : base ≤ 16) (hstands : List.Forall₂ Stands figures digits)
    (hbounded : ∀ d ∈ digits, d < base) : Figures base figures digits := by
  induction hstands with
  | nil => exact .nil
  | cons hc _ ih =>
    obtain ⟨hd, hrest⟩ := List.forall_mem_cons.mp hbounded
    exact .cons ⟨digit?_of_stands hc (by omega), hd⟩ (ih hrest)

/-- A numeral that does not begin with a zero is decimal. -/
theorem announced_of_ne {c : Char} (hc : c ≠ '0') (cs : List Char) :
    announced (c :: cs) = (10, c :: cs) := by
  unfold announced
  split
  · next h => exact absurd (List.cons.inj h).1 hc
  · next h => exact absurd (List.cons.inj h).1 hc
  · rfl

/-- Only the zero stands for zero. -/
theorem eq_zero_of_stands {c : Char} (hc : Stands c 0) : c = '0' := by
  rcases hc with rfl | rfl <;> rfl

namespace Written

/-- The unsigned part of a numeral is read as its value. -/
theorem announcedMagnitude_eq {w : Word} (n : Written w)
    (hvalue : Nat.ofDigits n.radix.base n.digits.reverse < UInt64.size) :
    announcedMagnitude (n.radix.mark ++ n.figures) =
      .value (Nat.ofDigits n.radix.base n.digits.reverse) := by
  obtain ⟨sign, radix, digits, figures, hstands, hne, hbounded, hleading, _⟩ := n
  dsimp only at *
  have hfigures : Figures radix.base figures digits :=
    figures_of_stands radix.base_le hstands hbounded
  have hplain : '_' ∉ figures := by
    intro hmem
    obtain ⟨d, _, hd, _⟩ := Outcome.exists_mem_of_forall₂ hfigures hmem
    exact (ne_of_digit? hd).2.2 rfl
  rw [← valueFrom_eq_ofDigits] at hvalue ⊢
  cases hstands with
  | nil => exact absurd rfl hne
  | @cons c d figures digits hc hrest =>
    cases radix with
    | decimal =>
      by_cases hd : d = 0
      · -- A zero alone announces octal digits, of which there are none.
        subst hd
        obtain rfl : digits = [] := by simpa using hleading rfl rfl
        obtain rfl := List.forall₂_nil_right_iff.mp hrest
        obtain rfl := eq_zero_of_stands hc
        rfl
      · have hzero : c ≠ '0' := by
          rintro rfl
          have hfirst := (List.forall₂_cons.mp hfigures).1.1
          exact hd (Option.some.inj hfirst).symm
        exact announcedMagnitude_of_figures (by simp) (announced_of_ne hzero figures) hplain
          hfigures hvalue
    | hexadecimal | octal | binary =>
      exact announcedMagnitude_of_figures (by simp) rfl
        (by simpa [Radix.mark] using hplain) hfigures hvalue

/-- The unsigned part of a numeral does not begin with a sign. -/
theorem signOf_unsigned {w : Word} (n : Written w) :
    signOf (n.radix.mark ++ n.figures) = (false, n.radix.mark ++ n.figures) := by
  obtain ⟨sign, radix, digits, figures, hstands, hne, hbounded, _, _⟩ := n
  dsimp only at *
  cases radix with
  | decimal =>
    cases hstands with
    | nil => exact absurd rfl hne
    | cons hc _ =>
      have hd := digit?_of_stands hc (Nat.lt_trans (hbounded _ List.mem_cons_self) (by decide))
      obtain ⟨hplus, hminus, _⟩ := ne_of_digit? hd
      exact signOf_of_ne hplus hminus _
  | hexadecimal | octal | binary => exact signOf_of_ne (by decide) (by decide) _

/-- The sign of a numeral is the one that it was written with. -/
theorem signOf_text {w : Word} (n : Written w) :
    signOf n.text = (decide (n.sign = .minus), n.radix.mark ++ n.figures) := by
  unfold text
  rw [List.append_assoc]
  cases n.sign with
  | none => exact n.signOf_unsigned
  | plus => rfl
  | minus => rfl

/-- A numeral is read as the word that it was written for. -/
theorem readAnnounced_text {w : Word} (n : Written w) : readAnnounced n.text = .value w := by
  have hlower := w.le_toInt
  have hupper := w.toInt_lt
  have hsize : UInt64.size = 2 ^ 64 := rfl
  have hvalue := n.value.trans (Sign.apply_eq _ _)
  have hbound : Nat.ofDigits n.radix.base n.digits.reverse < UInt64.size := by
    split at hvalue <;> omega
  unfold readAnnounced
  rw [n.signOf_text]
  dsimp only
  rw [n.announcedMagnitude_eq hbound]
  exact signed_value hvalue

end Written

/-! ## Writing words -/

/-- The digits of a number in a base, of which there is at least one. -/
def digitsIn (base n : Nat) : List Nat := if n = 0 then [0] else (Nat.digits base n).reverse

/-- The digits of a number have its value. -/
private theorem ofDigits_digitsIn (base n : Nat) : Nat.ofDigits base
    (digitsIn base n).reverse = n := by
  unfold digitsIn
  split
  · next hn => simp [hn]
  · rw [List.reverse_reverse, Nat.ofDigits_digits]

/-- The digits of a number are below the base. -/
private theorem lt_of_mem_digitsIn {base n d : Nat} (hbase : 1 < base) (hd : d ∈ digitsIn base n) :
    d < base := by
  unfold digitsIn at hd
  split at hd
  · obtain rfl := List.mem_singleton.mp hd
    omega
  · exact Nat.digits_lt_base hbase (List.mem_reverse.mp hd)

/-- Only zero is written with a zero in front. -/
theorem digitsIn_of_head {base n : Nat} (hhead : (digitsIn base n).head? = some 0) :
    digitsIn base n = [0] := by
  unfold digitsIn at hhead ⊢
  by_cases hn : n = 0
  · rw [if_pos hn]
  · rw [if_neg hn, List.head?_reverse,
      List.getLast?_eq_some_getLast (Nat.digits_ne_nil_iff_ne_zero.mpr hn)] at hhead
    exact absurd (Option.some.inj hhead) (Nat.getLast_digit_ne_zero base hn)

/-- Every word can be written in every base. -/
def Written.inRadix (r : Radix) (w : Word) : Written w where
  sign := .ofInt w.toInt
  radix := r
  digits := digitsIn r.base w.toInt.natAbs
  figures := (digitsIn r.base w.toInt.natAbs).map Nat.digitChar
  stands := by
    rw [List.forall₂_map_left_iff, List.forall₂_same]
    exact fun d _ => .inl rfl
  nonempty := by
    unfold digitsIn
    split
    · exact List.cons_ne_nil _ _
    · next hn => simpa [Nat.digits_ne_nil_iff_ne_zero] using hn
  bounded d hd := lt_of_mem_digitsIn r.one_lt_base hd
  leading _ hhead := digitsIn_of_head hhead
  value := by rw [ofDigits_digitsIn, Sign.apply_ofInt]

/-! ## Digits out of range -/

/-- A text begins with digits, with underscores among them, whose value needs more than 64
bits. -/
def Outgrows (cs : List Char) (n : Nat) : Prop :=
  ∃ front back, cs = front ++ back ∧ (∀ c ∈ front, c = '_' ∨ c.isDigit = true) ∧
    2 ^ 64 ≤ Nat.ofDigitChars 10 (front.filter Char.isDigit) n

/-- A number that has no more digits does not outgrow a word. -/
private theorem outgrows_nil {n : Nat} (hn : n < 2 ^ 64) : ¬ Outgrows [] n := by
  rintro ⟨front, back, hcs, _, hlarge⟩
  obtain ⟨rfl, _⟩ := List.append_eq_nil_iff.mp hcs.symm
  rw [List.filter_nil, Nat.ofDigitChars_nil] at hlarge
  omega

/-- A number outgrows a word with the next digit or with those behind it. -/
private theorem outgrows_cons_iff {c : Char} {cs : List Char} {n : Nat} (hn : n < 2 ^ 64) :
    Outgrows (c :: cs) n ↔
      (c = '_' ∧ Outgrows cs n) ∨
        (c.isDigit = true ∧ Outgrows cs (n * 10 + (c.toNat - '0'.toNat))) := by
  constructor
  · rintro ⟨front, back, hcs, hfront, hlarge⟩
    cases front with
    | nil =>
      rw [List.filter_nil, Nat.ofDigitChars_nil] at hlarge
      omega
    | cons d front =>
      obtain ⟨rfl, hrest⟩ := List.cons.inj hcs
      obtain ⟨hc, hothers⟩ := List.forall_mem_cons.mp hfront
      rcases hc with rfl | hc
      · exact .inl ⟨rfl, front, back, hrest, hothers, hlarge⟩
      · refine .inr ⟨hc, front, back, hrest, hothers, ?_⟩
        rwa [List.filter_cons_of_pos hc, Nat.ofDigitChars_cons, Nat.mul_comm] at hlarge
  · rintro (⟨rfl, front, back, rfl, hfront, hlarge⟩ | ⟨hc, front, back, rfl, hfront, hlarge⟩)
    · exact ⟨'_' :: front, back, rfl, List.forall_mem_cons.mpr ⟨.inl rfl, hfront⟩, hlarge⟩
    · refine ⟨c :: front, back, rfl, List.forall_mem_cons.mpr ⟨.inr hc, hfront⟩, ?_⟩
      rwa [List.filter_cons_of_pos hc, Nat.ofDigitChars_cons, Nat.mul_comm]

/-- A character that is no digit ends a decimal numeral. -/
theorem magnitude_of_not_isDigit {c : Char} (hmark : c ≠ '_') (hc : ¬ c.isDigit = true) (n : Nat)
    (cs : List Char) : magnitude 10 true n (c :: cs) = .malformed := by
  have hskip : ¬ (true && c == '_') = true := by simpa using hmark
  unfold magnitude
  rw [if_neg hskip]
  cases hd : digit? c with
  | none => rfl
  | some d =>
    have hten : 10 ≤ d := by
      by_contra hlt
      exact hc (isDigit_of_digit? hd (by omega))
    exact if_pos hten

/-- A text that begins with neither a digit nor a sign is no numeral. -/
theorem readAnnounced_of_not_isDigit {c : Char} (hplus : c ≠ '+') (hminus : c ≠ '-')
    (hmark : c ≠ '_') (hc : ¬ c.isDigit = true) (cs : List Char) :
    readAnnounced (c :: cs) = .malformed := by
  have hzero : c ≠ '0' := by
    rintro rfl
    exact hc rfl
  have hmagnitude : announcedMagnitude (c :: cs) = .malformed := by
    unfold announcedMagnitude
    rw [announced_of_ne hzero, List.isEmpty_cons, if_neg (by decide)]
    dsimp only
    rw [magnitude_of_not_isDigit hmark hc]
  unfold readAnnounced
  rw [signOf_of_ne hplus hminus]
  dsimp only
  rw [hmagnitude]
  rfl

/-- Decimal digits outgrow the range as soon as some of them do, whatever follows. -/
theorem magnitude_eq_overflow_iff {cs : List Char} {n : Nat} (hn : n < 2 ^ 64) :
    magnitude 10 true n cs = .overflow ↔ Outgrows cs n := by
  have hsize : UInt64.size = 2 ^ 64 := rfl
  induction cs generalizing n with
  | nil => simp [magnitude, outgrows_nil hn]
  | cons c cs ih =>
    rw [outgrows_cons_iff hn]
    by_cases hmark : c = '_'
    · subst hmark
      simp [magnitude, ih hn]
    by_cases hc : c.isDigit = true
    · have hskip : ¬ (true && c == '_') = true := by simpa using hmark
      have hten := digit_lt_ten hc
      unfold magnitude
      rw [if_neg hskip, digit?_of_isDigit hc]
      generalize c.toNat - '0'.toNat = d at hten
      dsimp only
      rw [if_neg (by omega)]
      by_cases hover : UInt64.size ≤ n * 10 + d
      · have hgrown : Outgrows cs (n * 10 + d) := by
          refine ⟨[], cs, rfl, by simp, ?_⟩
          rwa [List.filter_nil, Nat.ofDigitChars_nil, ← hsize]
        simp [hover, hc, hgrown]
      · have hrest := ih (n := n * 10 + d) (by omega)
        simp [hover, hmark, hc, hrest]
    · rw [magnitude_of_not_isDigit hmark hc]
      simp [hmark, hc]

end TapeMachine.Numeral
