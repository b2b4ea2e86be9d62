import Mathlib.Data.Finset.Lattice.Fold
import Mathlib.Data.Finset.Option
import Mathlib.Order.Lattice.Nat
import TapeMachine.Proofs.TapeMemory

/-!
# The extent of a tape

The array of a tape grows by whole blocks, from whatever extent it has at the time.
All the same its extent depends only on which addresses were written since the last
reset: it is that of the image, or that of the furthest block with a written address.
The order of the writes cannot matter because an address that is inside the array and
behind the image lies in a block for which the array has grown already.
-/

namespace TapeMachine.Tape

/-! ## Which addresses were written -/

/-- The addresses written since the last reset, after one more change. A negative
address is not written. -/
def Change.note (written : Finset Nat) : Change → Finset Nat
  | .write addr _ => written ∪ addr.address?.toFinset
  | .reset => ∅

/-- The addresses written since the last reset. -/
def Change.written (changes : List Change) : Finset Nat := changes.foldl Change.note ∅

/-- What was written with one more change. -/
private theorem Change.written_append_singleton (changes : List Change) (c : Change) :
    Change.written (changes ++ [c]) = Change.note (Change.written changes) c :=
  List.foldl_append

/-! ## How far one write takes the array -/

/-- All addresses of a block make the array grow equally far. -/
theorem grownExtent_le_of_lt {limit a b : Nat} (ha : a < grownExtent limit b) :
    grownExtent limit a ≤ grownExtent limit b := by
  unfold grownExtent at ha ⊢
  have hblock : a < (b / blockSize + 1) * blockSize := (Nat.lt_min.mp ha).1
  have hsame : a / blockSize + 1 ≤ b / blockSize + 1 := Nat.div_lt_of_lt_mul (by
    rwa [Nat.mul_comm] at hblock)
  have hend := Nat.mul_le_mul_right blockSize hsame
  omega

/-- A write makes the array grow if it goes behind the array, but not into the table. -/
theorem extent_set (t : Tape) (a : Nat) (value : Word) :
    (t.set a value).extent =
      if t.extent ≤ a ∧ a < t.limit then grownExtent t.limit a else t.extent := by
  by_cases ha : a < t.limit
  · rw [set_of_lt ha, extent, Array.size_setIfInBounds, size_grow]
    have hgrown := lt_grownExtent ha
    change (if a < t.extent then t.extent else max t.extent _) = _
    split <;> split <;> omega
  · rw [set_of_le (by omega), if_neg (by omega)]
    rfl

/-- A write makes the dense part no smaller. -/
private theorem extent_le_extent_set (t : Tape) (a : Nat) (value : Word) :
    t.extent ≤ (t.set a value).extent := by
  rw [extent_set]
  split
  · next hbehind =>
    have hgrown := lt_grownExtent hbehind.2
    omega
  · exact Nat.le_refl _

/-- Only a reset takes cells from the array. -/
theorem extent_le_extent_write (t : Tape) (addr value : Word) :
    t.extent ≤ (t.change (.write addr value)).extent := by
  cases ha : addr.address? with
  | none => rw [change_write_of_none ha]
  | some a => exact change_write_of_some ha t value ▸ t.extent_le_extent_set a value

/-- Writes make the dense part no smaller. -/
theorem extent_le_extent_writes (t : Tape) (writes : List (Word × Word)) :
    t.extent ≤ (t.changeAll (writes.map fun w => .write w.1 w.2)).extent := by
  induction writes generalizing t with
  | nil => exact Nat.le_refl _
  | cons w writes ih => exact (t.extent_le_extent_write w.1 w.2).trans (ih _)

/-! ## How far all writes take the array -/

/-- The extent of an array that starts with `size` cells, once the given addresses were
written. Addresses below `size` or in the table do not count. -/
def spread (size limit : Nat) (written : Finset Nat) : Nat :=
  max size ((written.filter fun a => size ≤ a ∧ a < limit).sup (grownExtent limit))

/-- An address inside the array and behind the image adds nothing, since the array has
grown for another address of its block. -/
theorem grownExtent_le_spread {size limit a : Nat} {written : Finset Nat} (hsize : size ≤ a)
    (ha : a < spread size limit written) : grownExtent limit a ≤ spread size limit written := by
  have hsup : a < (written.filter fun a => size ≤ a ∧ a < limit).sup (grownExtent limit) := by
    unfold spread at ha
    omega
  obtain ⟨b, hb, hab⟩ := Finset.lt_sup_iff.mp hsup
  calc grownExtent limit a ≤ grownExtent limit b := grownExtent_le_of_lt hab
    _ ≤ _ := Finset.le_sup hb
    _ ≤ spread size limit written := Nat.le_max_right _ _

/-- How far writes have spread with one more of them. -/
private theorem spread_insert (size limit a : Nat) (written : Finset Nat) :
    spread size limit (insert a written) =
      if size ≤ a ∧ a < limit then max (grownExtent limit a) (spread size limit written)
      else spread size limit written := by
  unfold spread
  rw [Finset.filter_insert]
  split
  · rw [Finset.sup_insert]
    exact Nat.max_left_comm _ _ _
  · rfl

/-- One more write takes the array as far as its address adds to the spread. -/
theorem extent_set_of_spread {t : Tape} {written : Finset Nat}
    (h : t.extent = spread t.baseline.size t.limit written) (a : Nat) (value : Word) :
    (t.set a value).extent = spread t.baseline.size t.limit (insert a written) := by
  have hsize : t.baseline.size ≤ t.extent := h ▸ Nat.le_max_left _ _
  rw [extent_set, spread_insert, ← h]
  by_cases hcounts : t.baseline.size ≤ a ∧ a < t.limit
  · rw [if_pos hcounts]
    have hgrown := lt_grownExtent hcounts.2
    -- Inside the array the address was reached by an earlier write to its block.
    by_cases hinside : a < t.extent
    · have hle : grownExtent t.limit a ≤ t.extent :=
        h ▸ grownExtent_le_spread hcounts.1 (h ▸ hinside)
      rw [if_neg (by omega), Nat.max_eq_right hle]
    · rw [if_pos (by omega), Nat.max_eq_left (by omega)]
  · rw [if_neg hcounts, if_neg (by omega)]

/-- After any changes, the extent is that of the addresses written since the last reset. -/
theorem extent_changeAll (image : Array Word) (changes : List Change) :
    ((ofImage image).changeAll changes).extent =
      spread image.size (ofImage image).limit (Change.written changes) := by
  -- The latest change is split off, since a reset forgets all before it.
  induction changes using List.reverseRecOn with
  | nil => exact (Nat.max_eq_left (Nat.zero_le _)).symm
  | append_singleton changes c ih =>
    have hbaseline := baseline_changeAll (ofImage image) changes
    rw [changeAll_append, Change.written_append_singleton]
    generalize (ofImage image).changeAll changes = t at ih hbaseline
    have hlimit : t.limit = (ofImage image).limit := by rw [limit, limit, hbaseline]
    rw [baseline_ofImage] at hbaseline
    change (t.change c).extent = _
    cases c with
    | reset =>
      rw [change, reset, hbaseline]
      exact (Nat.max_eq_left (Nat.zero_le _)).symm
    | write addr value =>
      cases ha : addr.address? with
      | none => simpa [change_write_of_none ha, Change.note, ha] using ih
      | some a =>
        have hstep := extent_set_of_spread (by rw [ih, hbaseline, hlimit]) a value
        rw [change_write_of_some ha, hstep, hbaseline, hlimit, Change.note, ha,
          Option.toFinset_some, Finset.union_comm]
        rfl

/-- The extent of a tape in closed form. After any changes it is the largest of the size
of the image and of the ends of the blocks, cut at the limit, of all addresses between
the two that were written since the last reset. So histories that wrote the same
addresses give the same extent, and further writes never make it smaller. -/
theorem extent_of_changes (image : Array Word) (changes : List Change) :
    let t := (ofImage image).changeAll changes
    let limit := max (2 ^ 20) image.size
    t.extent =
      max image.size (((Change.written changes).filter fun a => image.size ≤ a ∧ a < limit).sup
        fun a => min ((a / 1024 + 1) * 1024) limit) ∧
    (∀ others, Change.written others = Change.written changes →
      ((ofImage image).changeAll others).extent = t.extent) ∧
    ∀ writes : List (Word × Word),
      t.extent ≤ (t.changeAll (writes.map fun w => .write w.1 w.2)).extent := by
  intro t limit
  refine ⟨extent_changeAll image changes, fun others hsame => ?_, t.extent_le_extent_writes⟩
  rw [extent_changeAll, hsame, ← extent_changeAll]

end TapeMachine.Tape
