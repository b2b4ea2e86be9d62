import Mathlib.Data.List.Forall2

/-!
# Computations that may fail

What a computation in steps gives is known once each of its steps is. These lemmas
take such computations apart, whether a failure carries an error only or also the
state that it leaves behind.
-/

namespace TapeMachine.Outcome

variable {ε σ α β : Type}

/-- A computation in two steps succeeds if both do. -/
theorem bind_eq_ok_iff {x : Except ε α} {f : α → Except ε β} {y : β} :
    x >>= f = .ok y ↔ ∃ a, x = .ok a ∧ f a = .ok y := by
  cases x with
  | error e => simp [bind, Except.bind]
  | ok a => simp [bind, Except.bind]

/-- A computation in two steps fails if one of them does. -/
theorem bind_eq_error_iff {x : Except ε α} {f : α → Except ε β} {e : ε} :
    x >>= f = .error e ↔ x = .error e ∨ ∃ a, x = .ok a ∧ f a = .error e := by
  cases x with
  | error e => simp [bind, Except.bind]
  | ok a => simp [bind, Except.bind]

/-- Functions that agree on the elements of a list agree on the list. -/
theorem mapM_congr {f g : α → Except ε β} {xs : List α} (h : ∀ x ∈ xs, f x = g x) :
    xs.mapM f = xs.mapM g := by
  induction xs with
  | nil => rfl
  | cons x xs ih =>
    rw [List.mapM_cons, List.mapM_cons, h x List.mem_cons_self,
      ih fun y hy => h y (List.mem_cons_of_mem x hy)]

/-- A computation for each element of a list succeeds if each one does. -/
theorem mapM_eq_ok_iff {f : α → Except ε β} {xs : List α} {ys : List β} :
    xs.mapM f = .ok ys ↔ List.Forall₂ (fun x y => f x = .ok y) xs ys := by
  induction xs generalizing ys with
  | nil =>
    rw [List.mapM_nil, List.forall₂_nil_left_iff]
    exact ⟨fun h => (Except.ok.inj h).symm, fun h => h ▸ rfl⟩
  | cons x xs ih =>
    rw [List.mapM_cons, bind_eq_ok_iff, List.forall₂_cons_left_iff]
    constructor
    · rintro ⟨y, hy, hrest⟩
      obtain ⟨rest, hrest, hys⟩ := bind_eq_ok_iff.mp hrest
      exact ⟨y, rest, hy, ih.mp hrest, (Except.ok.inj hys).symm⟩
    · rintro ⟨y, rest, hy, hrest, rfl⟩
      exact ⟨y, hy, bind_eq_ok_iff.mpr ⟨rest, ih.mpr hrest, rfl⟩⟩

/-- A computation for each element of a list fails at the first one where it does. -/
theorem exists_first_of_mapM_eq_error {f : α → Except ε β} {xs : List α} {e : ε}
    (herror : xs.mapM f = .error e) :
    ∃ front x rest, xs = front ++ x :: rest ∧ (∀ y ∈ front, ∃ z, f y = .ok z) ∧ f x = .error e := by
  induction xs with
  | nil => cases herror
  | cons x xs ih =>
    rw [List.mapM_cons] at herror
    rcases bind_eq_error_iff.mp herror with hfirst | ⟨y, hy, herror⟩
    · exact ⟨[], x, xs, rfl, by simp, hfirst⟩
    · rcases bind_eq_error_iff.mp herror with hrest | ⟨ys, _, hpure⟩
      · obtain ⟨front, x', rest, rfl, hfront, hfail⟩ := ih hrest
        exact ⟨x :: front, x', rest, rfl, List.forall_mem_cons.mpr ⟨⟨y, hy⟩, hfront⟩, hfail⟩
      · cases hpure

/-- A computation for each element of a list that fails does so for one of them. -/
theorem exists_mem_of_mapM_eq_error {f : α → Except ε β} {xs : List α} {e : ε}
    (herror : xs.mapM f = .error e) : ∃ x ∈ xs, f x = .error e := by
  obtain ⟨front, x, rest, rfl, _, hfail⟩ := exists_first_of_mapM_eq_error herror
  exact ⟨x, List.mem_append_right front List.mem_cons_self, hfail⟩

/-- The values of a partial function are related element by element to a list on which it is
defined. -/
theorem forall₂_eq_some_iff {f : α → Option β} {xs : List α} {ys : List β} :
    List.Forall₂ (fun x y => f x = some y) xs ys ↔
      (∀ x ∈ xs, ∃ y, f x = some y) ∧ xs.filterMap f = ys := by
  constructor
  · intro h
    induction h with
    | nil => simp
    | cons hfirst _ ih =>
      rw [List.filterMap_cons_some hfirst, ih.2]
      exact ⟨List.forall_mem_cons.mpr ⟨⟨_, hfirst⟩, ih.1⟩, rfl⟩
  · rintro ⟨hdefined, rfl⟩
    induction xs with
    | nil => exact .nil
    | cons x xs ih =>
      obtain ⟨⟨y, hy⟩, hrest⟩ := List.forall_mem_cons.mp hdefined
      rw [List.filterMap_cons_some hy]
      exact .cons hy (ih hrest)

/-- A partial function is defined on a whole list, or there is a first element on which it is
not. -/
theorem defined_or_exists_first (f : α → Option β) (xs : List α) :
    (∀ x ∈ xs, ∃ y, f x = some y) ∨
      ∃ front x rest, xs = front ++ x :: rest ∧ (∀ y ∈ front, ∃ z, f y = some z) ∧ f x = none := by
  induction xs with
  | nil => exact .inl (by simp)
  | cons x xs ih =>
    cases hx : f x with
    | none => exact .inr ⟨[], x, xs, rfl, by simp, hx⟩
    | some y =>
      rcases ih with hrest | ⟨front, x', rest, rfl, hfront, hx'⟩
      · exact .inl (List.forall_mem_cons.mpr ⟨⟨y, hx⟩, hrest⟩)
      · exact .inr ⟨x :: front, x', rest, rfl, List.forall_mem_cons.mpr ⟨⟨y, hx⟩, hfront⟩, hx'⟩

/-- What is related element by element has a partner in each place. -/
theorem exists_getElem?_of_forall₂ {R : α → β → Prop} {xs : List α} {ys : List β}
    (h : List.Forall₂ R xs ys) {i : Nat} {x : α} (hx : xs[i]? = some x) :
    ∃ y, ys[i]? = some y ∧ R x y := by
  induction h generalizing i with
  | nil => cases hx
  | cons hfirst _ ih =>
    cases i with
    | zero =>
      obtain rfl := Option.some.inj hx
      exact ⟨_, rfl, hfirst⟩
    | succ i => exact ih hx

/-- What is related element by element has a partner for each element. -/
theorem exists_mem_of_forall₂ {R : α → β → Prop} {xs : List α} {ys : List β}
    (h : List.Forall₂ R xs ys) {x : α} (hx : x ∈ xs) : ∃ y ∈ ys, R x y := by
  obtain ⟨i, hi⟩ := List.getElem?_of_mem hx
  obtain ⟨y, hy, hrel⟩ := exists_getElem?_of_forall₂ h hi
  exact ⟨y, List.mem_of_getElem? hy, hrel⟩

/-- What is related element by element through something else is so through a list. -/
theorem exists_forall₂_of_forall₂ {γ : Type} {R : α → β → Prop} {P : α → γ → Prop}
    {Q : γ → β → Prop} (hrel : ∀ x y, R x y → ∃ z, P x z ∧ Q z y) {xs : List α} {ys : List β}
    (h : List.Forall₂ R xs ys) : ∃ zs, List.Forall₂ P xs zs ∧ List.Forall₂ Q zs ys := by
  induction h with
  | nil => exact ⟨[], .nil, .nil⟩
  | cons hfirst _ ih =>
    obtain ⟨z, hz, hz'⟩ := hrel _ _ hfirst
    obtain ⟨zs, hzs, hzs'⟩ := ih
    exact ⟨z :: zs, .cons hz hzs, .cons hz' hzs'⟩

/-- Lists of one length are related element by element if this holds in each place. -/
theorem forall₂_of_getElem? {R : α → β → Prop} {xs : List α} {ys : List β}
    (hlength : xs.length = ys.length)
    (hrel : ∀ (i : Nat) x y, xs[i]? = some x → ys[i]? = some y → R x y) : List.Forall₂ R xs ys := by
  refine List.forall₂_iff_get.mpr ⟨hlength, fun i hx hy => ?_⟩
  exact hrel i _ _ (List.getElem?_eq_getElem hx) (List.getElem?_eq_getElem hy)

/-- What is related element by element to one list is so to each other. -/
theorem forall₂_of_common {γ : Type} {R : α → β → Prop} {P : α → γ → Prop} {Q : β → γ → Prop}
    {xs : List α} {ys : List β} {zs : List γ} (hy : List.Forall₂ R xs ys)
    (hz : List.Forall₂ P xs zs) (hrel : ∀ x y z, R x y → P x z → Q y z) :
    List.Forall₂ Q ys zs := by
  induction hy generalizing zs with
  | nil =>
    cases hz
    exact .nil
  | cons hfirst _ ih =>
    cases hz with
    | cons hfirst' hrest => exact .cons (hrel _ _ _ hfirst hfirst') (ih hrest)

/-- A function that does not tell related elements apart has the same values on lists of
them. -/
theorem map_eq_of_forall₂ {R : α → α → Prop} {f : α → β} {xs ys : List α}
    (h : List.Forall₂ R xs ys) (hf : ∀ x y, R x y → f y = f x) : ys.map f = xs.map f := by
  induction h with
  | nil => rfl
  | cons hfirst _ ih => rw [List.map_cons, List.map_cons, hf _ _ hfirst, ih]

/-- A computation that fails stops in the state that it is in. -/
theorem run_throw (e : ε) (s : σ) : (throw e : EStateM ε σ α).run s = .error e s := rfl

variable {x : EStateM ε σ α} {f : α → EStateM ε σ β} {s t : σ}

/-- A computation with a state succeeds in two steps if both do, one after the other. -/
theorem run_bind_eq_ok_iff {y : β} :
    (x >>= f).run s = .ok y t ↔ ∃ a u, x.run s = .ok a u ∧ (f a).run u = .ok y t := by
  rw [EStateM.run_bind]
  cases x.run s with
  | ok a u => simp
  | error e u => simp

/-- A computation with a state fails in its first step, or in its second one after the first
has changed the state. -/
theorem run_bind_eq_error_iff {e : ε} :
    (x >>= f).run s = .error e t ↔
      x.run s = .error e t ∨ ∃ a u, x.run s = .ok a u ∧ (f a).run u = .error e t := by
  rw [EStateM.run_bind]
  cases x.run s with
  | ok a u => simp
  | error e u => simp

/-- A computation goes on from where its first step succeeds. -/
theorem bind_of_ok {a : α} (hx : x s = .ok a t) : (x >>= f) s = f a t := by
  change EStateM.bind x f s = f a t
  unfold EStateM.bind
  rw [hx]

/-- A computation stops where its first step fails. -/
theorem bind_of_error {e : ε} (hx : x s = .error e t) : (x >>= f) s = .error e t := by
  change EStateM.bind x f s = .error e t
  unfold EStateM.bind
  rw [hx]

end TapeMachine.Outcome
