import TapeMachine.Machine.Run
import TapeMachine.Proofs.Faults

/-!
# Spare input

An instruction looks at no more than the first input, and only an input instruction does.
So inputs behind those that a run takes change nothing, and a run that ends for lack of
input goes on with the first of them. A run is taken apart into a stretch of instructions
behind which it goes on, and the one instruction at which it stops.
-/

namespace TapeMachine.Machine

/-! ## Runs as stretches -/

/-- A number of instructions behind which a run goes on, with the inputs before and after. -/
inductive Stretch : Nat → Machine → List Word → Machine → List Word → Prop where
  | nil (m : Machine) (inputs : List Word) : Stretch 0 m inputs m inputs
  | cons {k : Nat} {m next last : Machine} {inputs left rest : List Word}
    (htick : m.tick inputs = ⟨.ok .ran, next, left⟩) (hrest : Stretch k next left last rest) :
    Stretch (k + 1) m inputs last rest

/-- How a run stops behind an instruction, unless it goes on. -/
def Tick.stop? : Tick → Option Stop
  | ⟨.ok .ran, _, _⟩ => none
  | ⟨.ok (.output value), machine, left⟩ => some ⟨.ok (some value), machine, left⟩
  | ⟨.ok .halted, machine, left⟩ => some ⟨.ok none, machine, left⟩
  | ⟨.error e, machine, left⟩ => some ⟨.error e, machine, left⟩

/-- A run goes on behind an instruction at which it does not stop. -/
theorem resume_succ_of_ran {m next : Machine} {inputs left : List Word}
    (htick : m.tick inputs = ⟨.ok .ran, next, left⟩) (bound : Nat) :
    m.resume (bound + 1) inputs = next.resume bound left := by
  rw [resume, htick]

/-- A run ends at an instruction at which it stops. -/
theorem resume_succ_of_stop {m : Machine} {inputs : List Word} {s : Stop}
    (hstop : (m.tick inputs).stop? = some s) (bound : Nat) :
    m.resume (bound + 1) inputs = some s := by
  rw [resume, ← hstop]
  generalize m.tick inputs = t at hstop ⊢
  obtain ⟨result, next, left⟩ := t
  rcases result with e | event
  · rfl
  · cases event with
    | ran => cases hstop
    | output value => rfl
    | halted => rfl

/-- An instruction behind which a run does not stop. -/
theorem tick_eq_of_stop?_eq_none {m : Machine} {inputs : List Word}
    (hstop : (m.tick inputs).stop? = none) :
    ∃ next left, m.tick inputs = ⟨.ok .ran, next, left⟩ := by
  generalize m.tick inputs = t at hstop ⊢
  obtain ⟨result, next, left⟩ := t
  rcases result with e | event
  · cases hstop
  · cases event with
    | ran => exact ⟨next, left, rfl⟩
    | output value => cases hstop
    | halted => cases hstop

/-- A run stops with the machine and the inputs that the last instruction leaves, and fails
with its error. -/
theorem of_stop? {t : Tick} {s : Stop} (hstop : t.stop? = some s) :
    s.machine = t.machine ∧ s.inputs = t.inputs ∧
      ∀ e, s.result = .error e ↔ t.result = .error e := by
  obtain ⟨result, next, left⟩ := t
  rcases result with e | event
  · cases hstop
    exact ⟨rfl, rfl, fun e' => by simp⟩
  · cases event with
    | ran => cases hstop
    | output value =>
      cases hstop
      exact ⟨rfl, rfl, fun e => by simp⟩
    | halted =>
      cases hstop
      exact ⟨rfl, rfl, fun e => by simp⟩

/-- A stop leaves the further inputs. -/
private theorem stop?_append {t : Tick} {s : Stop} (hstop : t.stop? = some s) (more : List Word) :
    Tick.stop? { t with inputs := t.inputs ++ more } =
      some { s with inputs := s.inputs ++ more } := by
  obtain ⟨result, next, left⟩ := t
  rcases result with e | event
  · cases hstop
    rfl
  · cases event with
    | ran => cases hstop
    | output value =>
      cases hstop
      rfl
    | halted =>
      cases hstop
      rfl

/-- A run does what its first instructions do, and then goes on. -/
theorem Stretch.resume_add {k : Nat} {m mid : Machine} {inputs left : List Word}
    (h : Stretch k m inputs mid left) (bound : Nat) :
    m.resume (k + bound) inputs = mid.resume bound left := by
  induction h with
  | nil m inputs => rw [Nat.zero_add]
  | @cons k _ _ _ _ _ _ htick _ ih =>
    rw [Nat.add_right_comm, resume_succ_of_ran htick, ih]

/-- A run is a stretch of instructions and the one at which it stops. -/
theorem resume_eq_some_iff {m : Machine} {bound : Nat} {inputs : List Word} {s : Stop} :
    m.resume bound inputs = some s ↔
      ∃ k mid left, k < bound ∧ Stretch k m inputs mid left ∧ (mid.tick left).stop? = some s := by
  constructor
  · intro hresume
    induction bound generalizing m inputs with
    | zero => cases hresume
    | succ bound ih =>
      cases hstop : (m.tick inputs).stop? with
      | some s' =>
        rw [resume_succ_of_stop hstop] at hresume
        exact ⟨0, m, inputs, Nat.succ_pos bound, .nil m inputs, hresume ▸ hstop⟩
      | none =>
        obtain ⟨next, left, htick⟩ := tick_eq_of_stop?_eq_none hstop
        rw [resume_succ_of_ran htick] at hresume
        obtain ⟨k, mid, rest, hk, hstretch, hend⟩ := ih hresume
        exact ⟨k + 1, mid, rest, Nat.succ_lt_succ hk, .cons htick hstretch, hend⟩
  · rintro ⟨k, mid, left, hk, hstretch, hstop⟩
    obtain ⟨more, rfl⟩ : ∃ more, bound = k + (more + 1) := ⟨bound - k - 1, by omega⟩
    rw [hstretch.resume_add, resume_succ_of_stop hstop]

/-- A larger bound does not change how a run ends. -/
theorem resume_mono {m : Machine} {bound bound' : Nat} {inputs : List Word} {s : Stop}
    (hbound : bound ≤ bound') (hresume : m.resume bound inputs = some s) :
    m.resume bound' inputs = some s := by
  obtain ⟨k, mid, left, hk, hstretch, hstop⟩ := resume_eq_some_iff.mp hresume
  exact resume_eq_some_iff.mpr ⟨k, mid, left, by omega, hstretch, hstop⟩

/-! ## One instruction with further inputs -/

/-- Something failed for lack of input. -/
def Starved {α : Type} (result : Except MachineError α) : Prop :=
  ∃ f : Fault, result = .error (.fault f) ∧ f.cause = .inputExhausted

/-- Examining an instruction needs no more than one input. -/
theorem effect_append (m : Machine) (word : Word) {inputs : List Word} {op : Opcode}
    (hfed : op = .input → inputs ≠ []) (more : List Word) :
    m.effect word (inputs ++ more) op = m.effect word inputs op ∧
      inputsAfter op (inputs ++ more) = inputsAfter op inputs ++ more := by
  cases op with
  | input =>
    obtain ⟨value, rest, rfl⟩ := List.exists_cons_of_ne_nil (hfed rfl)
    exact ⟨rfl, rfl⟩
  | _ => exact ⟨rfl, rfl⟩

/-- The end of an instruction leaves the further inputs. -/
private theorem conclude_append (m : Machine) (word next : Word) (left more : List Word)
    (outcome : Except Failure Effect) :
    m.conclude word next (left ++ more) outcome =
      { m.conclude word next left outcome with
        inputs := (m.conclude word next left outcome).inputs ++ more } := by
  cases outcome with
  | error failure => rfl
  | ok e => rfl

/-- An instruction that does not lack input leaves further inputs alone. -/
theorem tick_append {m : Machine} {inputs : List Word} (hfed : ¬ Starved (m.tick inputs).result)
    (more : List Word) :
    m.tick (inputs ++ more) =
      { m.tick inputs with inputs := (m.tick inputs).inputs ++ more } := by
  by_cases hactive : m.active = true
  · rcases m.standing_cases with hip | ⟨word, hword, hop⟩ | ⟨word, op, hat⟩
    · rw [tick_of_outside hactive hip, tick_of_outside hactive hip]
    · rw [tick_of_unknown hactive hword hop, tick_of_unknown hactive hword hop]
      rfl
    · have hinput : op = .input → inputs ≠ [] := by
        rintro rfl rfl
        apply hfed
        rw [hat.tick_eq hactive]
        exact ⟨_, rfl, rfl⟩
      obtain ⟨heffect, hleft⟩ := effect_append m word hinput more
      rw [hat.tick_eq hactive, hat.tick_eq hactive, heffect, hleft, conclude_append]
  · unfold tick
    rw [if_neg hactive, if_neg hactive]

/-- An instruction that lacks input stands at an input instruction, and there is none. -/
theorem standsAt_of_starved {m : Machine} {inputs : List Word} {ip word : Word}
    (hresult : (m.tick inputs).result = .error (.fault ⟨ip, word, .inputExhausted⟩)) :
    m.active = true ∧ m.ip = ip ∧ m.StandsAt word .input ∧ inputs = [] := by
  have hactive : m.active = true := by
    by_contra hinactive
    unfold tick at hresult
    rw [if_neg hinactive] at hresult
    cases hresult
  obtain ⟨cause, hlocated, hwrong⟩ := (contained_of_error hactive hresult).located
  injection hlocated with hfault
  injection hfault with hip hword hcause
  subst hcause
  cases hwrong with
  | input hat hinputs =>
    rw [hat.holds, Option.getD_some] at hword
    exact ⟨hactive, hip.symm, hword ▸ hat, hinputs⟩

/-- An input instruction takes the first input. -/
theorem StandsAt.tick_input {m : Machine} {word : Word} (hat : m.StandsAt word .input)
    (hactive : m.active = true) (value : Word) (rest : List Word) :
    (m.tick (value :: rest)).inputs = rest ∧
      ∀ a, m.destination word 1 = .ok a →
        (m.tick (value :: rest)).result = .ok .ran ∧
          (m.tick (value :: rest)).machine.tape = m.tape.set a value := by
  have heffect : m.effect word (value :: rest) .input = m.destination word 1 >>= fun a =>
      .ok (.store a value) := rfl
  rw [hat.tick_eq hactive, heffect]
  cases hdestination : m.destination word 1 with
  | error failure => exact ⟨rfl, fun a ha => by cases ha⟩
  | ok a =>
    refine ⟨rfl, fun a' ha' => ?_⟩
    obtain rfl := Except.ok.inj ha'
    exact ⟨rfl, rfl⟩

/-! ## Runs with further inputs -/

/-- An instruction behind which a run goes on is counted and leaves the machine active. -/
theorem of_tick_ran {m next : Machine} {inputs left : List Word}
    (htick : m.tick inputs = ⟨.ok .ran, next, left⟩) :
    m.active = true ∧ next.active = true ∧ next.ticks = m.ticks + 1 := by
  have hactive : m.active = true := by
    by_contra hinactive
    unfold tick at htick
    rw [if_neg hinactive] at htick
    cases htick
  have hcompleted := completed_of_ok hactive (congrArg Tick.result htick)
  rw [htick] at hcompleted
  exact ⟨hactive, hcompleted.active.mpr rfl, hcompleted.ticks⟩

/-- A trace goes on behind an instruction. -/
private theorem trace_succ_of_ran {m next : Machine} {inputs left : List Word}
    (htick : m.tick inputs = ⟨.ok .ran, next, left⟩) (n : Nat) :
    m.trace (n + 1) inputs =
      ((m.ip, .ok .ran) :: (next.trace n left).1, (next.trace n left).2) := by
  obtain ⟨_, hactive, _⟩ := of_tick_ran htick
  rw [trace, htick]
  dsimp only
  rw [if_pos hactive]

/-- An instruction that succeeds leaves the further inputs. -/
theorem tick_append_of_ran {m next : Machine} {inputs left : List Word}
    (htick : m.tick inputs = ⟨.ok .ran, next, left⟩) (more : List Word) :
    m.tick (inputs ++ more) = ⟨.ok .ran, next, left ++ more⟩ := by
  have hfed : ¬ Starved (m.tick inputs).result := by
    rintro ⟨f, hf, _⟩
    rw [htick] at hf
    cases hf
  rw [tick_append hfed, htick]

/-- A stretch is the same with further inputs. -/
theorem Stretch.append {k : Nat} {m mid : Machine} {inputs left : List Word}
    (h : Stretch k m inputs mid left) (more : List Word) :
    Stretch k m (inputs ++ more) mid (left ++ more) := by
  induction h with
  | nil m inputs => exact .nil m (inputs ++ more)
  | cons htick _ ih => exact .cons (tick_append_of_ran htick more) ih

/-- All instructions of a stretch are counted. -/
theorem Stretch.ticks_eq {k : Nat} {m mid : Machine} {inputs left : List Word}
    (h : Stretch k m inputs mid left) : mid.ticks = m.ticks + k := by
  induction h with
  | nil => rfl
  | cons htick _ ih =>
    obtain ⟨_, _, hticks⟩ := of_tick_ran htick
    omega

/-- The instructions of a stretch one by one. They do not depend on further inputs. -/
theorem Stretch.exists_trace {k : Nat} {m mid : Machine} {inputs left : List Word}
    (h : Stretch k m inputs mid left) :
    ∃ steps : Trace, steps.length = k ∧ (∀ step ∈ steps, step.2 = .ok .ran) ∧
      ∀ more n, m.trace (k + n) (inputs ++ more) =
        (steps ++ (mid.trace n (left ++ more)).1, (mid.trace n (left ++ more)).2) := by
  induction h with
  | nil m inputs => exact ⟨[], rfl, by simp, fun more n => by rw [Nat.zero_add]; rfl⟩
  | @cons k m next last inputs left rest htick _ ih =>
    obtain ⟨steps, hlength, hran, htrace⟩ := ih
    refine ⟨(m.ip, .ok .ran) :: steps, by simp [hlength], ?_, fun more n => ?_⟩
    · exact List.forall_mem_cons.mpr ⟨rfl, hran⟩
    · rw [Nat.add_right_comm, trace_succ_of_ran (tick_append_of_ran htick more), htrace]
      rfl

/-- Spare input changes nothing. Let a run end with some inputs. Unless it ends for lack of
input, it ends in the same way, on the same machine, with further inputs behind them, which
are left. If it does end for lack of input, behind `k` instructions and at the address `p`,
then an input instruction stands there; with further inputs the run has the same first `k`
instructions, and the next one is that input instruction, which takes the first of them. -/
theorem resume_spare (m : Machine) (bound : Nat) (xs ys : List Word) (s : Stop)
    (hresume : m.resume bound xs = some s) :
    (¬ Starved s.result →
      m.resume bound (xs ++ ys) = some { s with inputs := s.inputs ++ ys }) ∧
    ∀ p word, s.result = .error (.fault ⟨p, word, .inputExhausted⟩) →
      ∃ k steps mid, s.machine.ticks = m.ticks + k ∧ steps.length = k ∧
        (∀ step ∈ steps, step.2 = .ok .ran) ∧ m.trace k xs = (steps, mid, []) ∧
        m.trace k (xs ++ ys) = (steps, mid, ys) ∧
        (∀ n, m.resume (k + n) (xs ++ ys) = mid.resume n ys) ∧
        mid.ip = p ∧ mid.StandsAt word .input ∧
        ∀ y rest, ys = y :: rest → (mid.tick ys).inputs = rest ∧
          ∀ a, mid.destination word 1 = .ok a →
            (mid.tick ys).result = .ok .ran ∧ (mid.tick ys).machine.tape = mid.tape.set a y := by
  obtain ⟨k, mid, left, hk, hstretch, hstop⟩ := resume_eq_some_iff.mp hresume
  obtain ⟨hmachine, _, herror⟩ := of_stop? hstop
  constructor
  · intro hfed
    have hfed' : ¬ Starved (mid.tick left).result := by
      rintro ⟨f, hf, hcause⟩
      exact hfed ⟨f, (herror _).mpr hf, hcause⟩
    refine resume_eq_some_iff.mpr ⟨k, mid, left ++ ys, hk, hstretch.append ys, ?_⟩
    rw [tick_append hfed']
    exact stop?_append hstop ys
  · intro p word hresult
    obtain ⟨hactive, hip, hat, rfl⟩ := standsAt_of_starved ((herror _).mp hresult)
    obtain ⟨steps, hlength, hran, htrace⟩ := hstretch.exists_trace
    have hticks : s.machine.ticks = mid.ticks := by
      rw [hmachine, hat.tick_eq hactive]
      rfl
    refine ⟨k, steps, mid, hticks.trans hstretch.ticks_eq, hlength, hran, ?_, ?_,
      (hstretch.append ys).resume_add, hip, hat, ?_⟩
    · simpa [trace] using htrace [] 0
    · simpa [trace] using htrace ys 0
    · rintro y rest rfl
      exact hat.tick_input hactive y rest

/-- A program that reads two values, and is given the second one as spare input. -/
theorem resume_spare_second :
    let m := (ofImage "A" #[3, 5, 3, 6, 99, 0, 0]).reset
    ∃ s, m.resume 9 [7] = some s ∧ s.result = .error (.fault ⟨2, 3, .inputExhausted⟩) ∧
      (∃ k steps mid, s.machine.ticks = m.ticks + k ∧ m.trace k [7] = (steps, mid, []) ∧
        m.trace k [7, 8] = (steps, mid, [8]) ∧ mid.ip = 2 ∧ (mid.tick [8]).inputs = []) ∧
      ∃ s', m.resume 9 [7, 8] = some s' ∧
        m.resume 9 [7, 8, 9] = some { s' with inputs := s'.inputs ++ [9] } := by
  intro m
  have hfault : (m.resume 9 [7]).map Stop.result =
      some (.error (.fault ⟨2, 3, .inputExhausted⟩)) := by decide
  have hhalt : (m.resume 9 [7, 8]).map Stop.result = some (.ok none) := by decide
  obtain ⟨s, hs, hresult⟩ := Option.map_eq_some_iff.mp hfault
  obtain ⟨s', hs', hresult'⟩ := Option.map_eq_some_iff.mp hhalt
  refine ⟨s, hs, hresult, ?_, s', hs', ?_⟩
  · obtain ⟨k, steps, mid, hticks, _, _, htrace, htrace', _, hip, _, htake⟩ :=
      (resume_spare m 9 [7] [8] s hs).2 2 3 hresult
    exact ⟨k, steps, mid, hticks, htrace, htrace', hip, (htake 8 [] rfl).1⟩
  · refine (resume_spare m 9 [7, 8] [9] s' hs').1 ?_
    rintro ⟨f, hf, _⟩
    rw [hresult'] at hf
    cases hf

end TapeMachine.Machine
