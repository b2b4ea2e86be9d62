import TapeMachine.Proofs.SpareInput

/-!
# Suspended runs

A machine that stops at an output keeps all that it needs to go on. So it does not matter
whether a program is executed one instruction at a time, or from output to output with the
inputs that are left; nor does it matter for a sequence of outputs whether it is broken off
and taken up again.
-/

namespace TapeMachine.Machine

/-! ## Instructions one at a time -/

/-- The value that an instruction writes. -/
def written : Except MachineError Event → Option Word
  | .ok (.output value) => some value
  | _ => none

/-- The failure of an instruction. -/
def failure? : Except MachineError Event → Option MachineError
  | .error e => some e
  | .ok _ => none

/-- What comes of up to `n` instructions on one list of inputs: the values that they write,
the failure of the last one, and the machine behind them. -/
def ticked (n : Nat) (m : Machine) (inputs : List Word) : Outputs where
  values := (m.trace n inputs).1.filterMap fun step => written step.2
  error := (m.trace n inputs).1.getLast?.bind fun step => failure? step.2
  machine := (m.trace n inputs).2.1

section Ticked

variable {m next : Machine} {inputs left : List Word}

/-- Behind an instruction that leaves the machine active come the others. -/
theorem ticked_succ_of_active {event : Event} (htick : m.tick inputs = ⟨.ok event, next, left⟩)
    (hactive : next.active = true) (n : Nat) :
    m.ticked (n + 1) inputs =
      { next.ticked n left with
        values := (written (.ok event)).toList ++ (next.ticked n left).values } := by
  have htrace : m.trace (n + 1) inputs =
      ((m.ip, .ok event) :: (next.trace n left).1, (next.trace n left).2) := by
    rw [trace, htick]
    dsimp only
    rw [if_pos hactive]
  unfold ticked
  rw [htrace]
  generalize (next.trace n left).1 = rest
  congr 1
  · rw [List.filterMap_cons]
    cases written (.ok event) with
    | none => rfl
    | some value => rfl
  · cases rest with
    | nil => rfl
    | cons step rest => rw [List.getLast?_cons_cons]

/-- Ticks go on behind an instruction that ran. -/
theorem ticked_succ_of_ran (htick : m.tick inputs = ⟨.ok .ran, next, left⟩) (n : Nat) :
    m.ticked (n + 1) inputs = next.ticked n left :=
  ticked_succ_of_active htick (of_tick_ran htick).2.1 n

/-- An output leaves the machine active. -/
theorem active_of_output {value : Word} (hactive : m.active = true)
    (htick : m.tick inputs = ⟨.ok (.output value), next, left⟩) : next.active = true := by
  have hcompleted := completed_of_ok hactive (congrArg Tick.result htick)
  rw [htick] at hcompleted
  exact hcompleted.active.mpr rfl

/-- Ticks go on behind an output, which is the first of their values. -/
theorem ticked_succ_of_output {value : Word} (hactive : m.active = true)
    (htick : m.tick inputs = ⟨.ok (.output value), next, left⟩) (n : Nat) :
    m.ticked (n + 1) inputs =
      { next.ticked n left with values := value :: (next.ticked n left).values } :=
  ticked_succ_of_active htick (active_of_output hactive htick) n

/-- Nothing comes behind a halt. -/
theorem ticked_succ_of_halted (hactive : m.active = true)
    (htick : m.tick inputs = ⟨.ok .halted, next, left⟩) (n : Nat) :
    m.ticked (n + 1) inputs = ⟨[], none, next⟩ ∧ next.active = false := by
  have hinactive : next.active = false := by
    have hcompleted := completed_of_ok hactive (congrArg Tick.result htick)
    rw [htick] at hcompleted
    have hnot : ¬ next.active = true := fun h => by cases hcompleted.active.mp h
    exact Bool.eq_false_iff.mpr hnot
  refine ⟨?_, hinactive⟩
  have htrace : m.trace (n + 1) inputs = ([(m.ip, .ok .halted)], next, left) := by
    rw [trace, htick]
    dsimp only
    rw [if_neg (by simp [hinactive])]
  unfold ticked
  rw [htrace]
  rfl

/-- Nothing comes behind a failure. -/
theorem ticked_succ_of_error {error : MachineError} (hactive : m.active = true)
    (htick : m.tick inputs = ⟨.error error, next, left⟩) (n : Nat) :
    m.ticked (n + 1) inputs = ⟨[], some error, next⟩ ∧ next.active = false := by
  have hinactive : next.active = false := by
    have hcontained := contained_of_error hactive (congrArg Tick.result htick)
    rw [htick] at hcontained
    exact hcontained.inactive
  refine ⟨?_, hinactive⟩
  have htrace : m.trace (n + 1) inputs = ([(m.ip, .error error)], next, left) := by
    rw [trace, htick]
  unfold ticked
  rw [htrace]
  rfl

/-- A stretch writes nothing. -/
theorem Stretch.ticked_add {k : Nat} (h : Stretch k m inputs next left) (n : Nat) :
    m.ticked (k + n) inputs = next.ticked n left := by
  induction h with
  | nil m inputs => rw [Nat.zero_add]
  | cons htick _ ih => rw [Nat.add_right_comm, ticked_succ_of_ran htick, ih]

/-- A machine is active behind a stretch. -/
theorem Stretch.active {k : Nat} (h : Stretch k m inputs next left) (hactive : m.active = true) :
    next.active = true := by
  induction h with
  | nil => exact hactive
  | cons htick _ ih => exact ih (of_tick_ran htick).2.1

end Ticked

/-! ## From output to output -/

/-- Resumes the machine until it halts or fails, every time with the inputs that are left. -/
def resumeAll : (bound : Nat) → Machine → List Word → Option Outputs
  | 0, _, _ => none
  | bound + 1, m, inputs =>
    match m.resume (bound + 1) inputs with
    | none => none
    | some ⟨.error e, machine, _⟩ => some ⟨[], some e, machine⟩
    | some ⟨.ok none, machine, _⟩ => some ⟨[], none, machine⟩
    | some ⟨.ok (some value), machine, left⟩ =>
      (resumeAll bound machine left).map fun rest =>
        { rest with values := value :: rest.values }

section ResumeAll

variable {m next : Machine} {inputs left : List Word}

/-- An instruction leaves the inputs that it does not take, in their order. -/
theorem inputs_tick_suffix (m : Machine) (inputs : List Word) :
    (m.tick inputs).inputs <:+ inputs := by
  have hafter (op : Opcode) : inputsAfter op inputs <:+ inputs := by
    cases op with
    | input =>
      cases inputs with
      | nil => exact List.suffix_rfl
      | cons value rest => exact List.suffix_cons value rest
    | _ => exact List.suffix_rfl
  have hself (h : (m.tick inputs).inputs = inputs) : (m.tick inputs).inputs <:+ inputs :=
    h.symm ▸ List.suffix_rfl
  by_cases hactive : m.active = true
  · rcases m.standing_cases with hip | ⟨word, hword, hop⟩ | ⟨word, op, hat⟩
    · exact hself (congrArg Tick.inputs (tick_of_outside hactive hip inputs))
    · exact hself (congrArg Tick.inputs (tick_of_unknown hactive hword hop inputs))
    · rw [hat.tick_eq hactive]
      cases m.effect word inputs op with
      | error failure => exact hafter op
      | ok e => exact hafter op
  · have htick : m.tick inputs = ⟨.error .notActive, m, inputs⟩ := by
      unfold tick
      rw [if_neg hactive]
    exact hself (congrArg Tick.inputs htick)

/-- A stretch takes inputs from the front. -/
private theorem Stretch.inputs_suffix {k : Nat} (h : Stretch k m inputs next left) :
    left <:+ inputs := by
  induction h with
  | nil => exact List.suffix_rfl
  | @cons _ m _ _ inputs _ _ htick _ ih =>
    have hsuffix := m.inputs_tick_suffix inputs
    rw [htick] at hsuffix
    exact ih.trans hsuffix

/-- A run takes inputs from the front. -/
private theorem inputs_resume_suffix {bound : Nat} {s : Stop}
    (hresume : m.resume bound inputs = some s) : s.inputs <:+ inputs := by
  obtain ⟨k, mid, left, _, hstretch, hstop⟩ := resume_eq_some_iff.mp hresume
  rw [(of_stop? hstop).2.1]
  exact (inputs_tick_suffix mid left).trans hstretch.inputs_suffix

/-- Where a machine can be resumed to the end, it can be resumed once. -/
theorem exists_resume_of_resumeAll {bound : Nat} {o : Outputs}
    (h : m.resumeAll bound inputs = some o) : ∃ s, m.resume bound inputs = some s := by
  cases bound with
  | zero => cases h
  | succ bound =>
    rw [resumeAll] at h
    cases hresume : m.resume (bound + 1) inputs with
    | none =>
      rw [hresume] at h
      cases h
    | some s => exact ⟨s, rfl⟩

/-- A program that ends one instruction at a time also ends from output to output, in the
same way. -/
theorem resumeAll_eq_ticked {n bound : Nat} (hactive : m.active = true)
    (hended : (m.ticked n inputs).machine.active = false) (hbound : n ≤ bound) :
    m.resumeAll bound inputs = some (m.ticked n inputs) := by
  induction n generalizing m inputs bound with
  | zero =>
    have hinactive : m.active = false := hended
    rw [hactive] at hinactive
    cases hinactive
  | succ n ih =>
    obtain ⟨bound, rfl⟩ : ∃ b, bound = b + 1 := ⟨bound - 1, by omega⟩
    have hle : n ≤ bound := by omega
    rcases htick : m.tick inputs with ⟨result, next, left⟩
    rcases result with error | event
    · rw [(ticked_succ_of_error hactive htick n).1, resumeAll, resume, htick]
    cases event with
    | ran =>
      have hnext := (of_tick_ran htick).2.1
      rw [ticked_succ_of_ran htick] at hended ⊢
      obtain ⟨s, hs⟩ := exists_resume_of_resumeAll (ih hnext hended hle)
      -- The next machine is resumed with the same bound here, and with one more there.
      have hsame : m.resumeAll (bound + 1) inputs = next.resumeAll (bound + 1) left := by
        rw [resumeAll, resumeAll, resume_succ_of_ran htick, hs,
          resume_mono (Nat.le_succ bound) hs]
      rw [hsame, ih hnext hended (Nat.le_succ_of_le hle)]
    | output value =>
      rw [ticked_succ_of_output hactive htick] at hended ⊢
      have hrest := ih (active_of_output hactive htick) hended hle
      rw [resumeAll, resume, htick]
      dsimp only
      rw [hrest]
      rfl
    | halted => rw [(ticked_succ_of_halted hactive htick n).1, resumeAll, resume, htick]

/-- A program that ends from output to output also ends one instruction at a time, in the
same way. -/
theorem exists_ticked_of_resumeAll {bound : Nat} {o : Outputs} (hactive : m.active = true)
    (h : m.resumeAll bound inputs = some o) :
    ∃ n, (m.ticked n inputs).machine.active = false ∧ m.ticked n inputs = o := by
  induction bound generalizing m inputs o with
  | zero => cases h
  | succ bound ih =>
    obtain ⟨s, hs⟩ := exists_resume_of_resumeAll h
    rw [resumeAll, hs] at h
    obtain ⟨k, mid, rest, _, hstretch, hstop⟩ := resume_eq_some_iff.mp hs
    have hmid := hstretch.active hactive
    rcases htick : mid.tick rest with ⟨result, next, left⟩
    rw [htick] at hstop
    rcases result with error | event
    · cases hstop
      cases h
      obtain ⟨hticked, hinactive⟩ := ticked_succ_of_error hmid htick 0
      refine ⟨k + 1, ?_⟩
      rw [hstretch.ticked_add, hticked]
      exact ⟨hinactive, rfl⟩
    cases event with
    | ran => cases hstop
    | output value =>
      cases hstop
      obtain ⟨o', ho', rfl⟩ := Option.map_eq_some_iff.mp h
      obtain ⟨n, hinactive, hticked⟩ := ih (active_of_output hmid htick) ho'
      refine ⟨k + (n + 1), ?_⟩
      rw [hstretch.ticked_add, ticked_succ_of_output hmid htick, hticked]
      rw [hticked] at hinactive
      exact ⟨hinactive, rfl⟩
    | halted =>
      cases hstop
      cases h
      obtain ⟨hticked, hinactive⟩ := ticked_succ_of_halted hmid htick 0
      refine ⟨k + 1, ?_⟩
      rw [hstretch.ticked_add, hticked]
      exact ⟨hinactive, rfl⟩

end ResumeAll

/-! ## Outputs that are broken off -/

/-- What two ranges of outputs give together. -/
def Outputs.append (first rest : Outputs) : Outputs :=
  { rest with values := first.values ++ rest.values }

/-- What outputs end with when a run stops, unless it stops at one more of them. -/
def Stop.last? : Stop → Option Outputs
  | ⟨.error e, machine, _⟩ => some ⟨[], some e, machine⟩
  | ⟨.ok none, machine, _⟩ => some ⟨[], none, machine⟩
  | ⟨.ok (some _), _, _⟩ => none

/-- A stop without an output gives no values. -/
theorem values_eq_nil_of_last? {s : Stop} {o : Outputs} (hlast : s.last? = some o) :
    o.values = [] := by
  obtain ⟨result, machine, left⟩ := s
  rcases result with e | _ | value
  · cases hlast
    rfl
  · cases hlast
    rfl
  · cases hlast

section Outputs

variable {m : Machine} {inputs : List Word} {limit : Option Nat}

/-- Outputs end where a run stops without one. -/
theorem outputs_succ_of_last? {bound : Nat} {s : Stop} {o : Outputs}
    (hresume : m.resume (bound + 1) inputs = some s) (hlast : s.last? = some o)
    (limit : Option Nat) : m.outputs (bound + 1) limit inputs = some o := by
  rw [outputs, hresume]
  obtain ⟨result, machine, left⟩ := s
  rcases result with e | _ | value
  · exact hlast
  · exact hlast
  · cases hlast

/-- Outputs go on behind a value, if the limit allows. -/
theorem outputs_succ_of_value {bound : Nat} {value : Word} {next : Machine} {left : List Word}
    (hresume : m.resume (bound + 1) inputs = some ⟨.ok (some value), next, left⟩)
    (limit : Option Nat) :
    m.outputs (bound + 1) limit inputs =
      if limit.any (· ≤ 1) then some ⟨[value], none, next⟩
      else
        (next.outputs bound (limit.map (· - 1)) inputs).map fun rest =>
          { rest with values := value :: rest.values } := by
  rw [outputs, hresume]

/-- The outputs of a machine begin with a run that stops, and this ends them or gives a
value. -/
theorem resume_of_outputs {bound : Nat} {o : Outputs}
    (h : m.outputs (bound + 1) limit inputs = some o) :
    (∃ s, m.resume (bound + 1) inputs = some s ∧ s.last? = some o) ∨
      ∃ value next left, m.resume (bound + 1) inputs = some ⟨.ok (some value), next, left⟩ := by
  cases hresume : m.resume (bound + 1) inputs with
  | none =>
    rw [outputs, hresume] at h
    cases h
  | some s =>
    cases hlast : s.last? with
    | some o' =>
      rw [outputs_succ_of_last? hresume hlast] at h
      exact .inl ⟨s, rfl, hlast.trans h⟩
    | none =>
      obtain ⟨result, next, left⟩ := s
      rcases result with e | _ | value
      · cases hlast
      · cases hlast
      · exact .inr ⟨value, next, left, rfl⟩

/-- A larger bound does not change the outputs. -/
theorem outputs_mono {bound bound' : Nat} {o : Outputs} (hbound : bound ≤ bound')
    (h : m.outputs bound limit inputs = some o) : m.outputs bound' limit inputs = some o := by
  induction bound generalizing m limit bound' o with
  | zero => cases h
  | succ bound ih =>
    obtain ⟨bound', rfl⟩ : ∃ b, bound' = b + 1 := ⟨bound' - 1, by omega⟩
    rcases resume_of_outputs h with ⟨s, hresume, hlast⟩ | ⟨value, next, left, hresume⟩
    · exact outputs_succ_of_last? (resume_mono hbound hresume) hlast limit
    · rw [outputs_succ_of_value hresume] at h
      rw [outputs_succ_of_value (resume_mono hbound hresume)]
      by_cases hlimit : limit.any (· ≤ 1) = true
      · rw [if_pos hlimit] at h ⊢
        exact h
      · rw [if_neg hlimit] at h ⊢
        obtain ⟨rest, hrest, rfl⟩ := Option.map_eq_some_iff.mp h
        rw [ih (by omega) hrest]
        rfl

/-- Outputs that are broken off behind the first value. -/
theorem outputs_succ_one {bound : Nat} {value : Word} {next : Machine} {left : List Word}
    (hresume : m.resume (bound + 1) inputs = some ⟨.ok (some value), next, left⟩) :
    m.outputs (bound + 1) (some 1) inputs = some ⟨[value], none, next⟩ := by
  rw [outputs_succ_of_value hresume]
  rfl

/-- Outputs of which `k` more are wanted behind the first value, and possibly others. -/
theorem outputs_succ_more {bound k : Nat} {value : Word} {next : Machine} {left : List Word}
    (hresume : m.resume (bound + 1) inputs = some ⟨.ok (some value), next, left⟩)
    (limit : Option Nat) (hmore : k = 0 → limit ≠ some 0) :
    m.outputs (bound + 1) (limit.map (k + 1 + ·)) inputs =
      (next.outputs bound (limit.map (k + ·)) inputs).map fun rest =>
        { rest with values := value :: rest.values } := by
  rw [outputs_succ_of_value hresume]
  cases limit with
  | none => rfl
  | some j =>
    have hgoes : ¬ k + 1 + j ≤ 1 := by
      intro hle
      obtain rfl : k = 0 := by omega
      obtain rfl : j = 0 := by omega
      exact hmore rfl rfl
    have hrest : k + 1 + j - 1 = k + j := by omega
    simp only [Option.map_some, Option.any_some, decide_eq_true_eq, if_neg hgoes, hrest]

/-- The outputs of a machine, broken off behind `k` values, have all of them that there are. -/
theorem outputs_take {bound k : Nat} {o : Outputs} (hk : 0 < k) (hlimit : limit ≠ some 0)
    (h : m.outputs bound (limit.map (k + ·)) inputs = some o) :
    (k ≤ o.values.length →
      ∃ first rest, m.outputs bound (some k) inputs = some first ∧ first.values.length = k ∧
        first.error = none ∧ first.machine.outputs bound limit inputs = some rest ∧
        first.append rest = o) ∧
    (o.values.length < k → m.outputs bound (some k) inputs = some o) := by
  induction bound generalizing m k o with
  | zero => cases h
  | succ bound ih =>
    obtain ⟨k, rfl⟩ : ∃ k', k = k' + 1 := ⟨k - 1, by omega⟩
    rcases resume_of_outputs h with ⟨s, hresume, hlast⟩ | ⟨value, next, left, hresume⟩
    · constructor
      · intro hlength
        rw [values_eq_nil_of_last? hlast] at hlength
        cases hlength
      · intro _
        exact outputs_succ_of_last? hresume hlast _
    rw [outputs_succ_more hresume limit fun _ => hlimit] at h
    obtain ⟨rest, hrest, rfl⟩ := Option.map_eq_some_iff.mp h
    cases k with
    | zero =>
      rw [outputs_succ_one hresume]
      constructor
      · intro _
        have hrest' : next.outputs bound limit inputs = some rest := by simpa using hrest
        exact ⟨⟨[value], none, next⟩, rest, rfl, rfl, rfl,
          outputs_mono (Nat.le_succ bound) hrest', rfl⟩
      · intro hlength
        simp at hlength
    | succ k =>
      have hbroken := outputs_succ_more hresume (some 0) fun h => absurd h (Nat.succ_ne_zero k)
      obtain ⟨hbreak, hend⟩ := ih (Nat.succ_pos k) hrest
      constructor
      · intro hlength
        obtain ⟨first, last, hfirst, hvalues, herror, hlast, rfl⟩ :=
          hbreak (Nat.le_of_succ_le_succ hlength)
        refine ⟨{ first with values := value :: first.values }, last, ?_, ?_, herror,
          outputs_mono (Nat.le_succ bound) hlast, rfl⟩
        · exact hbroken.trans (congrArg (Option.map _) hfirst)
        · exact congrArg Nat.succ hvalues
      · intro hlength
        have hsame := hend (Nat.lt_of_succ_lt_succ hlength)
        exact hbroken.trans (congrArg (Option.map _) hsame)

/-- Outputs that are broken off behind `k` values and taken up again are those that the
machine gives at once. -/
theorem outputs_append {bound bound' k : Nat} {first rest : Outputs} (hk : 0 < k)
    (hlimit : limit ≠ some 0) (hfirst : m.outputs bound (some k) inputs = some first)
    (hlength : first.values.length = k)
    (hrest : first.machine.outputs bound' limit inputs = some rest) :
    m.outputs (bound + bound') (limit.map (k + ·)) inputs = some (first.append rest) := by
  induction bound generalizing m k first with
  | zero => cases hfirst
  | succ bound ih =>
    obtain ⟨k, rfl⟩ : ∃ k', k = k' + 1 := ⟨k - 1, by omega⟩
    rcases resume_of_outputs hfirst with ⟨s, hresume, hlast⟩ | ⟨value, next, left, hresume⟩
    · rw [values_eq_nil_of_last? hlast] at hlength
      cases hlength
    have hresume' : m.resume (bound + bound' + 1) inputs = some ⟨.ok (some value), next, left⟩ :=
      resume_mono (by omega) hresume
    rw [Nat.add_right_comm, outputs_succ_more hresume' limit fun _ => hlimit]
    cases k with
    | zero =>
      rw [outputs_succ_one hresume] at hfirst
      cases hfirst
      have hrest' := outputs_mono (Nat.le_add_left bound' bound) hrest
      simp [hrest', Outputs.append]
    | succ k =>
      have hbroken := outputs_succ_more hresume (some 0) fun h => absurd h (Nat.succ_ne_zero k)
      obtain ⟨o, ho, rfl⟩ := Option.map_eq_some_iff.mp (hbroken.symm.trans hfirst)
      rw [ih (Nat.succ_pos k) ho (Nat.succ.inj hlength) hrest]
      rfl

end Outputs

/-- Suspending does not disturb a run. An active machine that is executed one instruction at
a time on one list of inputs, until it halts or fails, writes the same values, ends in the
same way and is the same machine as when it is resumed time after time, every time with the
inputs that are left of that list; and the one ends if and only if the other does. Outputs that
are broken off behind `k` values and taken up again with the same inputs, to the end or up
to a further break, are together those that the machine gives at once. -/
theorem outputs_suspended (m : Machine) (xs : List Word) (hactive : m.active = true) :
    (∀ bound s, m.resume bound xs = some s → s.inputs <:+ xs) ∧
    (∀ n, (m.ticked n xs).machine.active = false →
      ∀ bound, n ≤ bound → m.resumeAll bound xs = some (m.ticked n xs)) ∧
    (∀ bound o, m.resumeAll bound xs = some o →
      ∃ n, (m.ticked n xs).machine.active = false ∧ m.ticked n xs = o) ∧
    ∀ k limit, 0 < k → limit ≠ some 0 →
      (∀ bound o, m.outputs bound (limit.map (k + ·)) xs = some o →
        (k ≤ o.values.length →
          ∃ first rest, m.outputs bound (some k) xs = some first ∧ first.values.length = k ∧
            first.error = none ∧ first.machine.outputs bound limit xs = some rest ∧
            first.append rest = o) ∧
        (o.values.length < k → m.outputs bound (some k) xs = some o)) ∧
      ∀ bound bound' first rest, m.outputs bound (some k) xs = some first →
        first.values.length = k → first.machine.outputs bound' limit xs = some rest →
        m.outputs (bound + bound') (limit.map (k + ·)) xs = some (first.append rest) := by
  refine ⟨fun bound s => inputs_resume_suffix, ?_, ?_, ?_⟩
  · intro n hended bound hbound
    exact resumeAll_eq_ticked hactive hended hbound
  · intro bound o h
    exact exists_ticked_of_resumeAll hactive h
  · intro k limit hk hlimit
    refine ⟨fun bound o h => outputs_take hk hlimit h, ?_⟩
    intro bound bound' first rest hfirst hlength hrest
    exact outputs_append hk hlimit hfirst hlength hrest

/-- A program that twice reads a value and writes it. Resumed with the inputs that are left,
it writes both; resumed with the same inputs, it writes the first one twice, also if it is
broken off between. -/
theorem outputs_suspended_echo :
    let m := (ofImage "A" #[3, 9, 4, 9, 3, 9, 4, 9, 99, 0]).reset
    m.active = true ∧ (m.ticked 5 [7, 8]).machine.active = false ∧
      m.resumeAll 5 [7, 8] = some (m.ticked 5 [7, 8]) ∧ (m.ticked 5 [7, 8]).values = [7, 8] ∧
      ∃ o first rest, m.outputs 5 none [7, 8] = some o ∧ o.values = [7, 7] ∧
        m.outputs 5 (some 1) [7, 8] = some first ∧ first.values.length = 1 ∧
        first.machine.outputs 5 none [7, 8] = some rest ∧ first.append rest = o := by
  intro m
  have hended : (m.ticked 5 [7, 8]).machine.active = false := by decide
  have hvalues : (m.outputs 5 none [7, 8]).map Outputs.values = some [7, 7] := by decide
  obtain ⟨o, ho, hvalues⟩ := Option.map_eq_some_iff.mp hvalues
  obtain ⟨_, hticked, _, hbroken⟩ := outputs_suspended m [7, 8] rfl
  obtain ⟨first, rest, hfirst, hlength, _, hrest, happend⟩ :=
    ((hbroken 1 none (by decide) (by decide)).1 5 o ho).1 (by simp [hvalues])
  exact ⟨rfl, hended, hticked 5 hended 5 (Nat.le_refl 5), by decide, o, first, rest, ho, hvalues,
    hfirst, hlength, hrest, happend⟩

end TapeMachine.Machine
