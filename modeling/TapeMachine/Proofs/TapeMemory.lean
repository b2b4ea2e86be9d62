import Mathlib.Data.List.Induction
import TapeMachine.Proofs.Address
import TapeMachine.Tape

/-!
# The tape as a memory

A tape keeps a cell in one of two places, and part of the first does not exist
until it is written. This file shows that none of this can be seen: after any
changes a cell holds what was written to it last, or else what the image holds
there. The layout that carries the argument is `WellFormed`.
-/

namespace TapeMachine.Tape

/-- The layout of a tape: the array covers the image and ends at the limit at the
latest, and the table has no cell below the limit. -/
structure WellFormed (t : Tape) : Prop where
  /-- The array covers the image. -/
  baseline_le : t.baseline.size ≤ t.extent
  /-- The array ends before the cells of the table. -/
  extent_le : t.extent ≤ t.limit
  /-- The cells of the table lie past the array. -/
  limit_le : ∀ a ∈ t.overflow, t.limit ≤ a

/-! ## Growing the array -/

/-- The array grows past the cell for which it grows. -/
theorem lt_grownExtent {limit a : Nat} (ha : a < limit) : a < grownExtent limit a := by
  have hblock : a < (a / blockSize + 1) * blockSize := by
    unfold blockSize
    omega
  exact Nat.lt_min.mpr ⟨hblock, ha⟩

/-- How many cells the array has after it grew for a cell. -/
theorem size_grow (dense : Array Word) (limit a : Nat) :
    (grow dense limit a).size =
      if a < dense.size then dense.size else max dense.size (grownExtent limit a) := by
  unfold grow
  split
  · rfl
  · rw [Array.size_append, Array.size_replicate]
    omega

/-- An array that grew for a cell below the limit has this cell. -/
theorem lt_size_grow (dense : Array Word) {limit a : Nat} (ha : a < limit) :
    a < (grow dense limit a).size := by
  rw [size_grow]
  have hgrown := lt_grownExtent ha
  split <;> omega

/-- Growing adds zeros only, which a missing cell counts as anyway. -/
private theorem getD_grow (dense : Array Word) (limit a b : Nat) :
    (grow dense limit a).getD b 0 = dense.getD b 0 := by
  unfold grow
  split
  · rfl
  · simp only [Array.getD_eq_getD_getElem?, Array.getElem?_append, Array.getElem?_replicate]
    grind

/-- A write to an array that grew for its cell changes this cell only. -/
private theorem getD_grow_set (dense : Array Word) {limit a : Nat} (ha : a < limit) (value : Word)
    (b : Nat) :
    ((grow dense limit a).setIfInBounds a value).getD b 0 =
      if b = a then value else dense.getD b 0 := by
  have hsize := lt_size_grow dense ha
  by_cases hb : b = a
  · subst hb
    simp [hsize]
  · have hkeep := getD_grow dense limit a b
    simp only [Array.getD_eq_getD_getElem?] at hkeep ⊢
    rw [Array.getElem?_setIfInBounds_ne (Ne.symm hb), hkeep, if_neg hb]

/-! ## What each operation does -/

/-- A tape that holds an image is laid out well. -/
theorem wellFormed_ofImage (image : Array Word) : (ofImage image).WellFormed where
  baseline_le := Nat.le_refl _
  extent_le := Nat.le_max_right _ _
  limit_le := fun _ ha => absurd ha Std.ExtTreeMap.not_mem_empty

/-- The baseline of a new tape is its image. -/
@[simp] theorem baseline_ofImage (image : Array Word) : (ofImage image).baseline = image := rfl

/-- A write keeps the baseline. -/
@[simp] theorem baseline_set (t : Tape) (a : Nat) (value : Word) :
    (t.set a value).baseline = t.baseline := by
  unfold set
  dsimp only
  split <;> rfl

/-- The limit depends on the image only. -/
@[simp] theorem limit_set (t : Tape) (a : Nat) (value : Word) :
    (t.set a value).limit = t.limit := by
  unfold limit
  rw [baseline_set]

/-- A write below the limit goes to the array. -/
theorem set_of_lt {t : Tape} {a : Nat} (ha : a < t.limit) (value : Word) :
    t.set a value = ⟨t.baseline, (grow t.dense t.limit a).setIfInBounds a value, t.overflow⟩ :=
  if_pos ha

/-- A write at or past the limit goes to the table. -/
theorem set_of_le {t : Tape} {a : Nat} (ha : t.limit ≤ a) (value : Word) :
    t.set a value = ⟨t.baseline, t.dense, t.overflow.insert a value⟩ :=
  if_neg (Nat.not_lt.mpr ha)

/-- In a tape that is laid out well, the limit alone says where a cell is. -/
theorem WellFormed.get_eq {t : Tape} (ht : t.WellFormed) (a : Nat) :
    t.get a = if a < t.limit then t.dense.getD a 0 else t.overflow.getD a 0 := by
  have hextent : t.dense.size ≤ t.limit := ht.extent_le
  unfold get
  by_cases hdense : a < t.dense.size
  · rw [dif_pos hdense, if_pos (by omega)]
    simp [Array.getD, hdense]
  · rw [dif_neg hdense]
    by_cases ha : a < t.limit
    · rw [if_neg (by omega), if_pos ha]
      simp [Array.getD, hdense]
    · rw [if_pos (by omega), if_neg ha]

/-- A tape that holds an image has zeros past its end. -/
theorem get_ofImage (image : Array Word) (a : Nat) : (ofImage image).get a = image.getD a 0 := by
  rw [(wellFormed_ofImage image).get_eq]
  split
  · rfl
  · have hpast : image.size ≤ a := by
      have hlimit : image.size ≤ (ofImage image).limit := Nat.le_max_right _ _
      omega
    have hempty : (ofImage image).overflow.getD a 0 = 0 := Std.ExtTreeMap.getD_empty
    rw [hempty]
    simp [Array.getD, Nat.not_lt.mpr hpast]

/-- A write keeps the layout. -/
theorem WellFormed.set {t : Tape} (ht : t.WellFormed) (a : Nat) (value : Word) :
    (t.set a value).WellFormed := by
  obtain ⟨hbaseline, hextent, hkeys⟩ := ht
  unfold extent at hbaseline hextent
  by_cases ha : a < t.limit
  · rw [set_of_lt ha]
    have hgrown : grownExtent t.limit a ≤ t.limit := Nat.min_le_right _ _
    have hsize := size_grow t.dense t.limit a
    constructor
    · simp only [extent, Array.size_setIfInBounds, hsize]
      split <;> omega
    · change ((grow t.dense t.limit a).setIfInBounds a value).size ≤ t.limit
      rw [Array.size_setIfInBounds, hsize]
      split <;> omega
    · exact hkeys
  · rw [set_of_le (by omega)]
    refine ⟨hbaseline, hextent, fun b hb => ?_⟩
    rcases Std.ExtTreeMap.mem_insert.mp hb with heq | hb
    · have hab : a = b := Std.LawfulEqCmp.eq_of_compare heq
      change t.limit ≤ b
      omega
    · exact hkeys b hb

/-- A write changes its own cell only. -/
theorem WellFormed.get_set {t : Tape} (ht : t.WellFormed) (a : Nat) (value : Word) (b : Nat) :
    (t.set a value).get b = if b = a then value else t.get b := by
  rw [(ht.set a value).get_eq, ht.get_eq, limit_set]
  by_cases ha : a < t.limit
  · rw [set_of_lt ha]
    dsimp only
    rw [getD_grow_set t.dense ha]
    by_cases hb : b = a
    · rw [if_pos (by omega), if_pos hb, if_pos hb]
    · rw [if_neg hb, if_neg hb]
  · rw [set_of_le (by omega)]
    dsimp only
    rw [Std.ExtTreeMap.getD_insert]
    simp only [Std.compare_eq_iff_eq]
    by_cases hb : b = a
    · rw [if_neg (by omega), if_pos hb.symm, if_pos hb]
    · rw [if_neg (Ne.symm hb), if_neg hb]

/-! ## Addresses of either sign -/

/-- Reading and writing are refused exactly at negative addresses. -/
theorem read?_eq_none_iff {t : Tape} {addr : Word} : t.read? addr = none ↔ addr < 0 := by
  rw [read?, Option.map_eq_none_iff, Word.address?_eq_none_iff]

/-- Only a write below the first cell is refused. -/
theorem write?_eq_none_iff {t : Tape} {addr value : Word} :
    t.write? addr value = none ↔ addr < 0 := by
  rw [write?, Option.map_eq_none_iff, Word.address?_eq_none_iff]

/-! ## Changes one after the other -/

/-- A change of a tape. -/
inductive Change where
  | write (addr value : Word)
  | reset
  deriving DecidableEq, Repr

/-- Makes a change. A write that is refused leaves the tape as it is. -/
def change (t : Tape) : Change → Tape
  | .write addr value => (t.write? addr value).getD t
  | .reset => t.reset

/-- Makes changes one after the other. -/
def changeAll (t : Tape) (changes : List Change) : Tape := changes.foldl change t

/-- The value that the last write to an address gave it, where the latest change
comes first and a reset undoes all writes before it. -/
def Change.latest? (addr : Word) : List Change → Option Word
  | [] => none
  | .reset :: _ => none
  | .write other value :: earlier => if other = addr then some value else latest? addr earlier

/-- A refused write changes nothing. -/
theorem change_write_of_none {addr : Word} (ha : addr.address? = none) (t : Tape) (value : Word) :
    t.change (.write addr value) = t := by
  rw [change, write?, ha, Option.map_none, Option.getD_none]

/-- A write changes its cell. -/
theorem change_write_of_some {addr : Word} {a : Nat} (ha : addr.address? = some a) (t : Tape)
    (value : Word) : t.change (.write addr value) = t.set a value := by
  rw [change, write?, ha, Option.map_some, Option.getD_some]

/-- Changes follow each other. -/
theorem changeAll_append (t : Tape) (changes more : List Change) :
    t.changeAll (changes ++ more) = (t.changeAll changes).changeAll more :=
  List.foldl_append

/-- A change keeps the baseline. -/
@[simp] theorem baseline_change (t : Tape) (c : Change) : (t.change c).baseline = t.baseline := by
  cases c with
  | write addr value =>
    cases ha : addr.address? with
    | none => rw [change_write_of_none ha]
    | some a => rw [change_write_of_some ha, baseline_set]
  | reset => rfl

/-- Every change keeps the layout. -/
theorem WellFormed.change {t : Tape} (ht : t.WellFormed) (c : Change) :
    (t.change c).WellFormed := by
  cases c with
  | write addr value =>
    cases ha : addr.address? with
    | none => rwa [change_write_of_none ha]
    | some a => exact change_write_of_some ha t value ▸ ht.set a value
  | reset => exact wellFormed_ofImage t.baseline

/-- Changes keep the baseline. -/
theorem baseline_changeAll (t : Tape) (changes : List Change) :
    (t.changeAll changes).baseline = t.baseline := by
  induction changes generalizing t with
  | nil => rfl
  | cons c changes ih => exact (ih (t.change c)).trans (baseline_change t c)

/-- Changes keep a tape well formed. -/
theorem WellFormed.changeAll {t : Tape} (ht : t.WellFormed) (changes : List Change) :
    (t.changeAll changes).WellFormed := by
  induction changes generalizing t with
  | nil => exact ht
  | cons c changes ih => exact ih (ht.change c)

/-- After any changes of a tape that held an image, reading gives the last value
written, or else the image. -/
theorem read?_changeAll (image : Array Word) (changes : List Change) {addr : Word} {a : Nat}
    (ha : addr.address? = some a) :
    ((ofImage image).changeAll changes).read? addr =
      some ((Change.latest? addr changes.reverse).getD (image.getD a 0)) := by
  -- The induction adds the latest change, since that is where `latest?` looks first.
  induction changes using List.reverseRecOn with
  | nil => simp [changeAll, read?, ha, get_ofImage, Change.latest?]
  | append_singleton changes c ih =>
    rw [changeAll_append, List.reverse_append]
    have ht := (wellFormed_ofImage image).changeAll changes
    generalize hnow : (ofImage image).changeAll changes = t at ih ht
    cases c with
    | reset =>
      have hbaseline : t.baseline = image := by
        rw [← hnow, baseline_changeAll, baseline_ofImage]
      simp [changeAll, change, reset, hbaseline, read?, ha, get_ofImage, Change.latest?]
    | write other value =>
      by_cases heq : other = addr
      · subst heq
        simp [changeAll, change_write_of_some ha, read?, ha, ht.get_set, Change.latest?]
      · have hkeep : (t.change (.write other value)).get a = t.get a := by
          cases hother : other.address? with
          | none => rw [change_write_of_none hother]
          | some b =>
            have hb : a ≠ b := by
              intro hab
              have haddr := Word.address?_eq_some_iff.mp ha
              have hvalue := Word.address?_eq_some_iff.mp hother
              exact heq (Int64.toInt_inj.mp (by omega))
            rw [change_write_of_some hother, ht.get_set, if_neg hb]
        simpa [changeAll, read?, ha, hkeep, Change.latest?, heq] using ih

/-- The tape is a resettable memory that is zero past its image. After any changes,
a cell holds the last value written since the last reset, or else what the image
holds there; negative addresses are refused without effect; every write below the
limit hits the array it is made to; and the layout stands. -/
theorem memory_of_changes (image : Array Word) (changes : List Change) (addr value : Word) :
    let t := (ofImage image).changeAll changes
    let limit := max (2 ^ 20) image.size
    (0 ≤ addr →
      t.read? addr = some ((Change.latest? addr changes.reverse).getD
        (image.getD addr.toNatClampNeg 0)) ∧
      (t.write? addr value).isSome) ∧
    (addr < 0 →
      t.read? addr = none ∧ t.write? addr value = none ∧ t.change (.write addr value) = t) ∧
    (∀ a < limit,
      (t.extent ≤ a → t.extent ≤ grownExtent limit a) ∧
      ∃ hbound : a < (grow t.dense limit a).size,
        t.set a value = { t with dense := (grow t.dense limit a).set a value hbound }) ∧
    t.baseline = image ∧
    image.size ≤ t.extent ∧ t.extent ≤ limit ∧ ∀ a ∈ t.overflow, limit ≤ a := by
  intro t limit
  have hbaseline : t.baseline = image := baseline_changeAll (ofImage image) changes
  have ht : t.WellFormed := (wellFormed_ofImage image).changeAll changes
  have hlimit : t.limit = limit := by rw [Tape.limit, hbaseline]; rfl
  refine ⟨fun hnonneg => ⟨?_, ?_⟩, fun hneg => ⟨?_, ?_, ?_⟩, fun a ha => ⟨?_, ?_⟩, hbaseline,
    ?_, ?_, ?_⟩
  · have haddr : addr.address? = some addr.toNatClampNeg :=
      if_neg (Int64.not_lt.mpr hnonneg)
    exact read?_changeAll image changes haddr
  · rw [Option.isSome_iff_ne_none]
    intro hnone
    exact Int64.not_lt.mpr hnonneg (write?_eq_none_iff.mp hnone)
  · exact read?_eq_none_iff.mpr hneg
  · exact write?_eq_none_iff.mpr hneg
  · exact change_write_of_none (Word.address?_eq_none_iff.mpr hneg) t value
  · intro hextent
    have hgrown := lt_grownExtent ha
    omega
  · have hbound := lt_size_grow t.dense ha
    refine ⟨hbound, ?_⟩
    rw [set_of_lt (hlimit ▸ ha), hlimit, Array.setIfInBounds, dif_pos hbound]
  · exact hbaseline ▸ ht.baseline_le
  · exact hlimit ▸ ht.extent_le
  · exact hlimit ▸ ht.limit_le

end TapeMachine.Tape
