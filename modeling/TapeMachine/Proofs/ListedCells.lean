import Mathlib.Data.List.Sort
import TapeMachine.Proofs.TapeMemory

/-!
# Listed cells

The loop over the cells of a tape is joined from a loop over the array and one over
the table, and passes over zeros. Whatever its body does, and wherever it is broken
off, it meets the cells that are not zero by ascending address, each one once. The
first part shows that a sequence is the list of its pairs, the second that the layout
of a tape puts the cells in order.
-/

namespace TapeMachine

/-! ## Sequences as lists -/

namespace Pairs.Sequence

variable {α β : Type}

/-- A loop that notes pairs ends with the pairs up to the limit, if it began below it. -/
private theorem value_loopOver_note {limit : Option Nat} (pairs : List (α × β))
    {noted : Array (α × β)} (hbelow : ∀ n ∈ limit, noted.size < n) :
    (loopOver (note limit) pairs noted).value.toList =
      noted.toList ++ Pairs.upTo (limit.map (· - noted.size)) pairs := by
  -- What is left of the limit shrinks with every pair that is noted.
  induction pairs generalizing noted with
  | nil => cases limit <;> simp [loopOver, ForInStep.value, Pairs.upTo]
  | cons pair rest ih =>
    rw [loopOver, note]
    by_cases hlast : limit = some (noted.push (pair.1, pair.2)).size
    · rw [if_pos hlast, hlast]
      simp [ForInStep.value, Pairs.upTo]
    · rw [if_neg hlast]
      have hnext : ∀ n ∈ limit, (noted.push (pair.1, pair.2)).size < n := by
        intro n hn
        obtain rfl := Option.mem_def.mp hn
        have hsize := hbelow n hn
        rw [Option.some.injEq] at hlast
        rw [Array.size_push] at hlast ⊢
        omega
      refine (ih hnext).trans ?_
      cases limit with
      | none => simp [Pairs.upTo]
      | some n =>
        have hsize := hbelow n rfl
        have hleft : n - noted.size = n - (noted.size + 1) + 1 := by omega
        simp [Pairs.upTo, hleft]

/-- What a sequence gives up to a limit, as soon as the list is known that its loops meet. -/
theorem upTo_of_loop {sequence : Sequence α β} {pairs : List (α × β)}
    (hloop : ∀ {σ : Type} (body : α → β → σ → ForInStep σ) (s : σ),
      sequence.loop body s = loopOver body pairs s) (limit : Option Nat) :
    sequence.upTo limit = Pairs.upTo limit pairs := by
  unfold upTo
  split
  · next hzero => rw [hzero, Pairs.upTo, List.take_zero]
  · next hpositive =>
    rw [hloop, value_loopOver_note]
    · cases limit <;> simp
    · intro n hn
      obtain rfl := Option.mem_def.mp hn
      rw [Option.some.injEq] at hpositive
      exact Nat.pos_of_ne_zero hpositive

/-- A sequence whose loops are those of a list is this list. -/
theorem toList_of_loop {sequence : Sequence α β} {pairs : List (α × β)}
    (hloop : ∀ {σ : Type} (body : α → β → σ → ForInStep σ) (s : σ),
      sequence.loop body s = loopOver body pairs s) : sequence.toList = pairs :=
  upTo_of_loop hloop none

/-- Every loop over a sequence is a loop over the list of its pairs. -/
theorem loop_eq (sequence : Sequence α β) {σ : Type} (body : α → β → σ → ForInStep σ) (s : σ) :
    sequence.loop body s = loopOver body sequence.toList s := by
  obtain ⟨pairs, hloop⟩ := sequence.lawful
  rw [toList_of_loop hloop]
  exact hloop body s

/-- A loop that is broken off at a limit meets the first pairs of the sequence. -/
theorem upTo_eq (sequence : Sequence α β) (limit : Option Nat) :
    sequence.upTo limit = Pairs.upTo limit sequence.toList :=
  upTo_of_loop sequence.loop_eq limit

/-- A sequence that was made of a list is this list. -/
@[simp]
theorem toList_ofList (pairs : List (α × β)) : (ofList pairs).toList = pairs :=
  toList_of_loop fun _ _ => rfl

/-- A sequence after another is one list after the other. -/
@[simp]
theorem toList_append (first second : Sequence α β) :
    (first.append second).toList = first.toList ++ second.toList := by
  apply toList_of_loop
  intro σ body s
  rw [loopOver_append, ← loop_eq]
  simp only [← loop_eq]
  rfl

/-- Sequences one after the other are their lists one after the other. -/
@[simp]
theorem toList_concat (sequences : List (Sequence α β)) :
    (concat sequences).toList = Pairs.concat (sequences.map toList) := by
  induction sequences with
  | nil => exact toList_ofList []
  | cons first rest ih =>
    change (first.append (concat rest)).toList = _
    rw [toList_append, ih]
    rfl

/-- What is kept of a sequence is what is kept of its list. -/
@[simp]
theorem toList_sift (keep : α → β → Bool) (sequence : Sequence α β) :
    (sequence.sift keep).toList = Pairs.sift keep sequence.toList := by
  apply toList_of_loop
  intro σ body s
  rw [← loopOver_sift, ← loop_eq]
  rfl

end Pairs.Sequence

/-! ## The cells in order -/

namespace Tape

variable {t : Tape}

/-- The list of the cells that are not zero, by ascending address and each one once. -/
structure Catalogue (t : Tape) (all : List (Nat × Word)) : Prop where
  ascending : all.Pairwise fun cell other => cell.1 < other.1
  mem_iff : ∀ a value, (a, value) ∈ all ↔ t.get a = value ∧ value ≠ 0

/-- There is one such list only. -/
theorem Catalogue.unique {all others : List (Nat × Word)} (h : t.Catalogue all)
    (hothers : t.Catalogue others) : all = others := by
  have : Std.Antisymm fun cell other : Nat × Word => cell.1 < other.1 :=
    ⟨fun _ _ hlt hgt => absurd hgt (Nat.lt_asymm hlt)⟩
  have : Std.Irrefl fun cell other : Nat × Word => cell.1 < other.1 :=
    ⟨fun _ => Nat.lt_irrefl _⟩
  refine h.ascending.eq_of_mem_iff hothers.ascending ?_
  rintro ⟨a, value⟩
  rw [h.mem_iff, hothers.mem_iff]

/-- The cells that are listed come from the array and then from the table. -/
theorem cells_eq (t : Tape) :
    t.cells = (t.low ++ t.overflow.toList).filter fun cell => cell.2 != 0 := by
  simp [cells, scan, Pairs.sift, Pairs.concat]

/-- The low cells are those of the dense part. -/
theorem mem_low {a : Nat} {value : Word} : (a, value) ∈ t.low ↔ t.dense[a]? = some value := by
  rw [low, ← Array.getElem?_toList, ← List.mk_mem_zipIdx_iff_getElem?, List.mem_map]
  constructor
  · rintro ⟨cell, hcell, heq⟩
    cases heq
    exact hcell
  · intro hcell
    exact ⟨(value, a), hcell, rfl⟩

/-- The low cells are in the order of their addresses. -/
private theorem pairwise_low (t : Tape) : t.low.Pairwise fun cell other => cell.1 < other.1 := by
  rw [low, List.pairwise_map]
  have hrange : (t.dense.toList.zipIdx.map Prod.snd).Pairwise (· < ·) := by
    rw [List.zipIdx_map_snd]
    exact List.pairwise_lt_range'
  exact List.pairwise_map.mp hrange

/-- The cells of the array lie before those of the table, so all are in order. -/
theorem WellFormed.ascending_cells (ht : t.WellFormed) :
    t.cells.Pairwise fun cell other => cell.1 < other.1 := by
  rw [cells_eq]
  refine List.Pairwise.filter _ (List.pairwise_append.mpr ⟨t.pairwise_low, ?_, ?_⟩)
  · exact Std.ExtTreeMap.ordered_keys_toList.imp fun hlt => Nat.compare_eq_lt.mp hlt
  · rintro ⟨a, value⟩ hlow ⟨b, other⟩ htable
    have ha : a < t.extent := (Array.getElem?_eq_some_iff.mp (mem_low.mp hlow)).1
    have hb : t.limit ≤ b := by
      apply ht.limit_le
      rw [Std.ExtTreeMap.mem_iff_isSome_getElem?,
        Std.ExtTreeMap.mem_toList_iff_getElem?_eq_some.mp htable, Option.isSome_some]
    have hextent := ht.extent_le
    change a < b
    omega

/-- A cell is listed exactly if it is not zero, wherever it is kept. -/
theorem WellFormed.mem_cells_iff (ht : t.WellFormed) {a : Nat} {value : Word} :
    (a, value) ∈ t.cells ↔ t.get a = value ∧ value ≠ 0 := by
  have hextent : t.dense.size ≤ t.limit := ht.extent_le
  rw [cells_eq, List.mem_filter, List.mem_append, mem_low,
    Std.ExtTreeMap.mem_toList_iff_getElem?_eq_some, ht.get_eq, bne_iff_ne]
  refine and_congr_left fun hvalue => ?_
  -- On either side of the limit the other place has no such cell. A missing cell reads as
  -- zero, which is not `value`.
  by_cases ha : a < t.limit
  · have hnone : t.overflow[a]? = none :=
      Std.ExtTreeMap.getElem?_eq_none fun hmem => Nat.not_le.mpr ha (ht.limit_le a hmem)
    rw [if_pos ha, hnone, Array.getD_eq_getD_getElem?]
    cases t.dense[a]? <;> simp [hvalue.symm]
  · have hnone : t.dense[a]? = none := Array.getElem?_eq_none (by omega)
    rw [if_neg ha, hnone, Std.ExtTreeMap.getD_eq_getD_getElem?]
    cases t.overflow[a]? <;> simp [hvalue.symm]

/-- The cells that are listed are a catalogue of the tape. -/
private theorem WellFormed.catalogue_cells (ht : t.WellFormed) : t.Catalogue t.cells where
  ascending := ht.ascending_cells
  mem_iff _ _ := ht.mem_cells_iff

/-- After any changes of a tape there is exactly one list of the cells that do not read
as zero, by strictly ascending address. The loop over the cells meets this list with
every body, so that it gives its first cells when it is broken off after some number of
them, and the whole list when it is not. -/
theorem cells_of_changes (image : Array Word) (changes : List Change) :
    let t := (ofImage image).changeAll changes
    ∃ all : List (Nat × Word),
      t.Catalogue all ∧ (∀ others, t.Catalogue others → others = all) ∧
      (∀ (addr : Word) (a : Nat), addr.address? = some a →
        ∀ value, (a, value) ∈ all ↔ t.read? addr = some value ∧ value ≠ 0) ∧
      t.cells = all ∧
      (∀ n, t.scan.upTo (some n) = all.take n) ∧
      ∀ {σ : Type} (body : Nat → Word → σ → ForInStep σ) (s : σ),
        t.scan.loop body s = Pairs.loopOver body all s := by
  intro t
  have ht : t.WellFormed := (wellFormed_ofImage image).changeAll changes
  have hall := ht.catalogue_cells
  refine ⟨t.cells, hall, fun others h => h.unique hall, ?_, rfl,
    fun n => t.scan.upTo_eq (some n), t.scan.loop_eq⟩
  intro addr a ha value
  rw [hall.mem_iff, read?, ha, Option.map_some, Option.some.injEq]

end Tape

end TapeMachine
