/-!
# Sequences of pairs

Cells and codes are listed as sequences of pairs, which are put one after the
other, sifted, and read up to a limit. A sequence that is not held in memory as a
list is given by the loop over it. Such a loop can be broken off at any pair, and
however it is used it meets the pairs of one list.
-/

namespace TapeMachine.Pairs

/-- The pairs of all sequences in turn. -/
def concat {α β : Type} (sequences : List (List (α × β))) : List (α × β) := sequences.flatten

/-- The pairs of which `keep` holds. -/
def sift {α β : Type} (keep : α → β → Bool) (pairs : List (α × β)) : List (α × β) :=
  pairs.filter fun pair => keep pair.1 pair.2

/-- The first elements up to a limit, or all without one. -/
def upTo {α : Type} : Option Nat → List α → List α
  | none, xs => xs
  | some n, xs => xs.take n

/-! ## Loops -/

variable {α β : Type}

/-- The loop over a list of pairs. The body takes a pair and the state so far, and
breaks off the loop when it is done. -/
def loopOver {σ : Type} (body : α → β → σ → ForInStep σ) : List (α × β) → σ → ForInStep σ
  | [], s => .yield s
  | (a, b) :: rest, s =>
    match body a b s with
    | .done s => .done s
    | .yield s => loopOver body rest s

/-- A loop over two lists in turn goes on with the second unless it was broken off. -/
theorem loopOver_append {σ : Type} (body : α → β → σ → ForInStep σ)
    (first second : List (α × β)) (s : σ) :
    loopOver body (first ++ second) s =
      match loopOver body first s with
      | .done s => .done s
      | .yield s => loopOver body second s := by
  induction first generalizing s with
  | nil => rfl
  | cons pair rest ih =>
    rw [List.cons_append, loopOver, loopOver]
    cases body pair.1 pair.2 s with
    | done s => rfl
    | yield s => exact ih s

/-- A body that passes over pairs meets the others only. -/
theorem loopOver_sift {σ : Type} (keep : α → β → Bool) (body : α → β → σ → ForInStep σ)
    (pairs : List (α × β)) (s : σ) :
    loopOver (fun a b s => if keep a b then body a b s else .yield s) pairs s =
      loopOver body (sift keep pairs) s := by
  induction pairs generalizing s with
  | nil => rfl
  | cons pair rest ih =>
    rw [loopOver, sift, List.filter_cons]
    by_cases hkeep : keep pair.1 pair.2
    · rw [if_pos hkeep, if_pos hkeep, loopOver]
      cases body pair.1 pair.2 s with
      | done s => rfl
      | yield s => exact ih s
    · rw [if_neg hkeep, if_neg hkeep]
      exact ih s

/-- A sequence of pairs, given by the loop over it. -/
structure Sequence (α β : Type) where
  /-- Runs a body on the pairs in turn, until it is done. -/
  loop : {σ : Type} → (α → β → σ → ForInStep σ) → σ → ForInStep σ
  /-- Every loop meets the pairs of one list. -/
  lawful : ∃ pairs : List (α × β), ∀ {σ : Type} (body : α → β → σ → ForInStep σ) (s : σ),
    loop body s = loopOver body pairs s

namespace Sequence

/-- The pairs of a list. -/
def ofList (pairs : List (α × β)) : Sequence α β where
  loop body s := loopOver body pairs s
  lawful := ⟨pairs, fun _ _ => rfl⟩

/-- Two sequences in turn. A body that is done in the first ends the loop over both. -/
def append (first second : Sequence α β) : Sequence α β where
  loop body s :=
    match first.loop body s with
    | .done s => .done s
    | .yield s => second.loop body s
  lawful := by
    obtain ⟨front, hfront⟩ := first.lawful
    obtain ⟨back, hback⟩ := second.lawful
    refine ⟨front ++ back, fun body s => ?_⟩
    rw [loopOver_append, hfront]
    cases loopOver body front s with
    | done s => rfl
    | yield s => exact hback body s

/-- All sequences in turn. -/
def concat (sequences : List (Sequence α β)) : Sequence α β := sequences.foldr append (ofList [])

/-- The pairs of which `keep` holds. -/
def sift (keep : α → β → Bool) (pairs : Sequence α β) : Sequence α β where
  loop body s := pairs.loop (fun a b s => if keep a b then body a b s else .yield s) s
  lawful := by
    obtain ⟨all, hall⟩ := pairs.lawful
    exact ⟨Pairs.sift keep all, fun body s => (hall _ s).trans (loopOver_sift keep body all s)⟩

/-- The body that notes every pair, until it has as many as the limit says. -/
def note (limit : Option Nat) (a : α) (b : β) (noted : Array (α × β)) :
    ForInStep (Array (α × β)) :=
  let noted := noted.push (a, b)
  if limit = some noted.size then .done noted else .yield noted

/-- The pairs that are met until the loop is broken off at a limit, or all without
one. With a limit of zero there is no loop. -/
def upTo (limit : Option Nat) (pairs : Sequence α β) : List (α × β) :=
  if limit = some 0 then [] else (pairs.loop (note limit) #[]).value.toList

/-- All pairs of a sequence. -/
def toList (pairs : Sequence α β) : List (α × β) := pairs.upTo none

end Sequence

end TapeMachine.Pairs
