import TapeMachine.Proofs.Parameters

/-!
# Faults of the plain machine

The plain machine executes an instruction step by step, and what it has changed before a
failure stays changed. An instruction that fails does no harm all the same. Its parameters
are examined by steps that move the instruction pointer and change nothing else, and what
changes the memory or the relative base is a last step, which cannot fail. Only an input is
taken before its destination is examined.
-/

namespace TapeMachine.Plain

/-- The same state, up to the instruction pointer. -/
def State.Moved (s s' : State) : Prop := ∃ ip, s' = { s with ip }

/-- A state has not moved from itself. -/
theorem State.Moved.refl (s : State) : s.Moved s := ⟨s.ip, rfl⟩

/-- Moves follow each other. -/
theorem State.Moved.trans {s s' s'' : State} (h : s.Moved s') (h' : s'.Moved s'') :
    s.Moved s'' := by
  obtain ⟨_, rfl⟩ := h
  obtain ⟨ip, rfl⟩ := h'
  exact ⟨ip, rfl⟩

/-- If this computation fails, it has only moved the instruction pointer. -/
def Clean {α : Type} (x : Exec α) : Prop :=
  ∀ s cause s', x.run s = .error cause s' → s.Moved s'

/-- This computation only moves the instruction pointer, whether it fails or not. -/
structure Examines {α : Type} (x : Exec α) : Prop where
  moves : ∀ s value s', x.run s = .ok value s' → s.Moved s'
  clean : Clean x

/-! ## Sequences of steps -/

section Sequences

variable {α β : Type} {x : Exec α} {f : α → Exec β}

/-- A computation that succeeds without a change is an examination. -/
theorem examines_of_unchanged (hx : ∀ s, ∃ value, x.run s = .ok value s) : Examines x where
  moves := by
    intro s value s' hrun
    obtain ⟨_, hok⟩ := hx s
    rw [hok] at hrun
    cases hrun
    exact .refl s
  clean := by
    intro s cause s' hrun
    obtain ⟨_, hok⟩ := hx s
    rw [hok] at hrun
    cases hrun

/-- Returning a value examines nothing. -/
theorem Examines.pure (value : α) : Examines (Pure.pure value : Exec α) :=
  examines_of_unchanged fun _ => ⟨value, rfl⟩

/-- A failure changes nothing. -/
theorem Examines.throw (cause : Cause) : Examines (MonadExcept.throw cause : Exec α) where
  moves := by
    intro s value s' hrun
    cases hrun
  clean := by
    intro s _ s' hrun
    cases hrun
    exact .refl s

/-- What follows an examination is clean with it. -/
theorem Examines.bind_clean (hx : Examines x) (hf : ∀ value, Clean (f value)) :
    Clean (x >>= f) := by
  intro s cause s' hrun
  rcases Outcome.run_bind_eq_error_iff.mp hrun with hfail | ⟨value, t, hok, hfail⟩
  · exact hx.clean s cause s' hfail
  · exact (hx.moves s value t hok).trans (hf value t cause s' hfail)

/-- Examinations follow each other. -/
theorem Examines.bind (hx : Examines x) (hf : ∀ value, Examines (f value)) :
    Examines (x >>= f) where
  moves := by
    intro s result s' hrun
    obtain ⟨value, t, hok, hrest⟩ := Outcome.run_bind_eq_ok_iff.mp hrun
    exact (hx.moves s value t hok).trans ((hf value).moves t result s' hrest)
  clean := hx.bind_clean fun value => (hf value).clean

/-- A change of the state cannot fail. -/
theorem clean_modify (change : State → State) : Clean (modify change) := by
  intro s cause s' hrun
  cases hrun

/-- A value that is returned at the end changes nothing. -/
theorem Clean.bind_pure (hx : Clean x) (result : β) : Clean (do let _ ← x; return result) := by
  intro s cause s' hrun
  rcases Outcome.run_bind_eq_error_iff.mp hrun with hfail | ⟨value, t, _, hfail⟩
  · exact hx s cause s' hfail
  · cases hfail

end Sequences

/-! ## The parts of an instruction -/

/-- An address is examined. -/
theorem examines_address (w : Word) : Examines (address w) := by
  unfold address
  by_cases hw : 0 ≤ w.toInt
  · rw [dif_pos hw]
    exact .pure _
  · rw [dif_neg hw]
    exact .throw _

/-- Looking at the state changes nothing. -/
theorem examines_get : Examines (get : Exec State) :=
  examines_of_unchanged fun s => ⟨s, rfl⟩

/-- A cell is read without a change. -/
theorem examines_peek (w : Word) : Examines (peek w) :=
  (examines_address w).bind fun _ => examines_get.bind fun _ => .pure _

/-- Passing a parameter moves the instruction pointer. -/
theorem examines_pass (start : Word) (n : Nat) : Examines (pass start n) where
  moves := by
    intro s _ s' hrun
    cases hrun
    exact ⟨_, rfl⟩
  clean := by
    intro s cause s' hrun
    cases hrun

/-- The relative base is read without a change. -/
private theorem examines_fromBase (offset : Word) : Examines (fromBase offset) :=
  examines_get.bind fun _ => .pure _

/-- The address of a parameter is found without a change. -/
theorem examines_effective (start word : Word) (n : Nat) : Examines (effective start word n) := by
  refine (examines_pass start n).bind fun place => ?_
  split
  · exact examines_peek place
  · exact .pure place
  · exact (examines_peek place).bind examines_fromBase
  · exact .throw _

/-- An operand is found and read without a change. -/
theorem examines_operand (start word : Word) (n : Nat) : Examines (operand start word n) :=
  (examines_effective start word n).bind examines_peek

/-- A value is stored in the last step, after its place was examined. -/
theorem clean_store (start word : Word) (n : Nat) (value : Word) :
    Clean (store start word n value) := by
  unfold store
  by_cases himmediate : modeDigit word n = 1
  · rw [if_pos himmediate]
    exact (examines_pass start n).bind_clean fun _ => (Examines.throw _).clean
  · rw [if_neg himmediate]
    refine (examines_effective start word n).bind_clean fun addr => ?_
    exact (examines_address addr).bind_clean fun _ => clean_modify _

/-- A combination fails before it stores. -/
private theorem clean_combine (start word : Word) (f : Int → Int → Word) :
    Clean (combine start word f) := by
  refine (examines_operand start word 1).bind_clean fun x => ?_
  refine (examines_operand start word 2).bind_clean fun y => ?_
  exact (clean_store start word 3 _).bind_pure _

/-- A jump fails before it is taken. -/
private theorem clean_jump (start word : Word) (taken : Int → Bool) : Clean
    (jump start word taken) := by
  refine (examines_operand start word 1).bind_clean fun x => ?_
  refine (examines_operand start word 2).bind_clean fun target => ?_
  exact (clean_modify _).bind_pure _

/-- Every operation but the one that takes an input is clean. -/
theorem clean_operate (start : Word) {word : Word} (hop : opDigits word ≠ 3) :
    Clean (operate start word) := by
  unfold operate
  split
  case h_3 hinput => exact absurd hinput hop
  case h_4 => exact (examines_operand start word 1).bind_clean fun _ => (Examines.pure _).clean
  case h_5 | h_6 => exact clean_jump start word _
  case h_9 =>
    refine (examines_operand start word 1).bind_clean fun offset => ?_
    exact (clean_modify _).bind_pure _
  case h_10 => exact (clean_modify _).bind_pure _
  case h_11 => exact (Examines.throw _).clean
  all_goals exact clean_combine start word _

/-- An input instruction that fails has taken its input, if there was one, and has changed
nothing else. -/
theorem moved_of_input {start word : Word} (hop : opDigits word = 3) {s s' : State} {cause : Cause}
    (hrun : (operate start word).run s = .error cause s') :
    State.Moved { s with inputs := s.inputs.drop 1 } s' := by
  unfold operate at hrun
  rw [hop] at hrun
  rcases Outcome.run_bind_eq_error_iff.mp hrun with htake | ⟨value, t, htake, hstore⟩
  -- Taking an input fails only if there is none; storing it fails after it was taken.
  · cases hinputs : s.inputs with
    | nil =>
      rw [run_takeInput_of_nil hinputs] at htake
      cases htake
      refine ⟨s.ip, ?_⟩
      rw [List.drop_nil, ← hinputs]
    | cons value rest =>
      rw [run_takeInput_of_cons hinputs] at htake
      cases htake
  · cases hinputs : s.inputs with
    | nil =>
      rw [run_takeInput_of_nil hinputs] at htake
      cases htake
    | cons value' rest =>
      rw [run_takeInput_of_cons hinputs] at htake
      cases htake
      exact ((clean_store start word 1 value).bind_pure _) _ cause s' hstore

/-- The inputs that an instruction leaves when it fails. -/
def leftOf (word : Word) (inputs : List Word) : List Word :=
  if opDigits word = 3 then inputs.drop 1 else inputs

/-- An instruction that fails has moved the instruction pointer, and taken its input. -/
theorem moved_of_execute {start word : Word} {s s' : State} {cause : Cause}
    (hrun : (execute start word).run s = .error cause s') :
    State.Moved { s with inputs := leftOf word s.inputs } s' := by
  rcases Outcome.run_bind_eq_error_iff.mp hrun with hmodify | ⟨_, t, hmodify, hoperate⟩
  · cases hmodify
  · cases hmodify
    unfold leftOf
    by_cases hop : opDigits word = 3
    · rw [if_pos hop]
      obtain ⟨ip, rfl⟩ := moved_of_input hop hoperate
      exact ⟨ip, rfl⟩
    · rw [if_neg hop]
      obtain ⟨ip, rfl⟩ := clean_operate start hop _ cause s' hoperate
      exact ⟨ip, rfl⟩

/-! ## One instruction -/

/-- The machine stands at an instruction that takes an input. -/
def State.TakesInput (s : State) : Prop :=
  ∃ a : Address, s.ip.toInt = (a : Nat) ∧ opDigits (s.memory a) = 3

/-- An instruction failed on a list of inputs, and did no harm. -/
structure State.Contained (s : State) (inputs : List Word) (s' : State) : Prop where
  image : s'.image = s.image
  memory : s'.memory = s.memory
  base : s'.base = s.base
  inactive : s'.active = false
  /-- The input is taken before its destination is examined. -/
  taken : s.TakesInput → s'.inputs = inputs.drop 1
  kept : ¬ s.TakesInput → s'.inputs = inputs

/-- An instruction of an active plain machine that fails does no harm. -/
theorem State.contained_of_error {s : State} (hactive : s.active = true) {inputs : List Word}
    {error : MachineError} (herror : (s.tick inputs).1 = .error error) :
    s.Contained inputs (s.tick inputs).2 := by
  unfold State.tick State.step at herror ⊢
  rw [if_pos hactive] at herror ⊢
  cases hip : s.ip.address? with
  | none =>
    have houtside : ¬ s.TakesInput := by
      rintro ⟨a, ha, _⟩
      rw [Word.address?_eq_some_iff.mpr ha] at hip
      cases hip
    rw [run_peek_of_none hip]
    exact ⟨rfl, rfl, rfl, rfl, fun htakes => absurd htakes houtside, fun _ => rfl⟩
  | some a =>
    have hcell := Word.lt_of_address?_eq_some hip
    have htakes : s.TakesInput ↔ opDigits (s.memory ⟨a, hcell⟩) = 3 := by
      constructor
      · rintro ⟨b, hb, hop⟩
        rw [Word.address?_eq_some_iff.mpr hb] at hip
        obtain rfl := Option.some.inj hip
        exact hop
      · exact fun hop => ⟨⟨a, hcell⟩, Word.address?_eq_some_iff.mp hip, hop⟩
    rw [run_peek_of_some hip] at herror ⊢
    dsimp only at herror ⊢
    cases hrun : (execute s.ip (s.memory ⟨a, hcell⟩)).run { s with inputs } with
    | ok report s' =>
      rw [hrun] at herror
      cases herror
    | error cause s' =>
      obtain ⟨ip, rfl⟩ := moved_of_execute hrun
      refine ⟨rfl, rfl, rfl, rfl, fun h => ?_, fun h => ?_⟩
      · exact if_pos (htakes.mp h)
      · exact if_neg (mt htakes.mpr h)

end TapeMachine.Plain
