import TapeMachine.Proofs.EmulatorRun
import TapeMachine.Proofs.ErrorPlace
import TapeMachine.Proofs.QueueOrder

/-!
# What becomes of the outputs

At each tick an emulator resumes its machine, counts the value that this puts out, and then
sends it to the output channel. A queue may be full and refuse the value, and the machine is
past its output instruction by then. Whatever the order in which the emulator is ticked and
its queue is emptied, each output is received, still waits or was refused by its own tick.
-/

namespace TapeMachine

namespace Queue

/-- Receiving values from a queue takes as many from the front as the limit allows. -/
theorem Holds.receiveFrom_nil {capacity : Int} {q : Queue} {waiting : List Word}
    (h : Holds capacity q waiting) {fuel : Nat} (hfuel : waiting.length < fuel)
    (limit : Option Nat) :
    ∃ left, Channel.receiveFrom fuel limit [] none (.queue q) =
        ⟨limit.elim waiting waiting.take, [], .queue left⟩ ∧
      Holds capacity left (limit.elim [] waiting.drop) := by
  induction fuel generalizing q waiting limit with
  | zero => cases hfuel
  | succ fuel ih =>
    unfold Channel.receiveFrom
    by_cases hlimit : limit = some 0
    · subst hlimit
      exact ⟨q, rfl, h⟩
    rw [if_neg hlimit]
    have hnext : (Channel.queue q).next? none =
        q.pop?.map fun r => (r.1, none, .queue r.2) := rfl
    cases waiting with
    | nil =>
      rw [hnext, h.pop?_nil]
      cases limit with
      | none => exact ⟨q, rfl, h⟩
      | some n => exact ⟨q, by simp, by simpa using h⟩
    | cons value waiting =>
      obtain ⟨rest, hpop, hrest⟩ := h.pop?_cons
      obtain ⟨left, hleft, hholds⟩ :=
        ih hrest (Nat.lt_of_succ_lt_succ hfuel) (limit.map (· - 1))
      rw [hnext, hpop]
      dsimp only [Option.map_some, Channel.feedOnce]
      rw [hleft]
      cases limit with
      | none => exact ⟨left, rfl, hholds⟩
      | some n =>
        obtain ⟨n, rfl⟩ := Nat.exists_eq_succ_of_ne_zero fun hn => hlimit (congrArg some hn)
        exact ⟨left, rfl, hholds⟩

/-- What waits in a queue is received from its front, up to the limit, and the rest still waits. -/
private theorem Holds.receive_nil {capacity : Int} {q : Queue} {waiting : List Word}
    (h : Holds capacity q waiting) (limit : Option Nat) :
    ∃ left, (Channel.queue q).receive limit [] =
        ⟨limit.elim waiting waiting.take, [], .queue left⟩ ∧
      Holds capacity left (limit.elim [] waiting.drop) := by
  unfold Channel.receive
  by_cases hlimit : limit = some 0
  · subst hlimit
    exact ⟨q, rfl, h⟩
  · rw [if_neg hlimit]
    refine h.receiveFrom_nil ?_ limit
    change waiting.length < q.length + 0 + 1
    rw [h.length_eq]
    omega

end Queue

/-! ## The outputs of a machine -/

namespace Machine

/-- The value that a run of a machine put out, if it ended with one. -/
def emitted? : Except MachineError (Option Word) → Option Word
  | .ok value => value
  | .error _ => none

/-- Resumes a machine with the same inputs, once for each bound, and tells how each run
ended. -/
def resumeEach (inputs : List Word) : (bounds : List Nat) → Machine →
    Option (List (Except MachineError (Option Word)) × Machine)
  | [], m => some ([], m)
  | bound :: bounds, m =>
    (m.resume bound inputs).bind fun stop =>
      (resumeEach inputs bounds stop.machine).map fun rest => (stop.result :: rest.1, rest.2)

/-- A run that puts a value out comes to an output instruction with this value, and leaves the
machine active right behind it. -/
def PutsOut (m : Machine) (inputs : List Word) (value : Word) (next : Machine) : Prop :=
  ∃ k last left word, Stretch k m inputs last left ∧ last.StandsAt word .output ∧
    last.load word 1 = .ok value ∧ last.active = true ∧
    next = { last with ip := last.ip + 2, ticks := last.ticks + 1 }

/-- A resumed machine stops behind an output that it reports. -/
private theorem putsOut_of_resume {m next : Machine} {bound : Nat} {inputs left : List Word}
    {value : Word} (hresume : m.resume bound inputs = some ⟨.ok (some value), next, left⟩) :
    m.PutsOut inputs value next := by
  obtain ⟨k, last, rest, _, hstretch, hstop⟩ := resume_eq_some_iff.mp hresume
  obtain ⟨hactive, _, hnext, word, hat, hload⟩ := of_tick_output (tick_of_stop?_output hstop)
  exact ⟨k, last, rest, word, hstretch, hat, hload, hactive, hnext⟩

/-- A machine is active behind an output. -/
theorem PutsOut.active {m next : Machine} {inputs : List Word} {value : Word}
    (h : m.PutsOut inputs value next) : next.active = true := by
  obtain ⟨_, last, _, _, _, _, _, hactive, rfl⟩ := h
  exact hactive

end Machine

/-! ## Ticks and receiving -/

namespace Emulator

open Machine (emitted?)

/-- Something that is done with an emulator. Where it is ticked while values are received, they
are received one by one. -/
inductive Move where
  | tick (bound : Nat)
  /-- Values are received from the output channel, up to a limit. -/
  | receive (limit : Option Nat)

/-- What is seen of a move. -/
inductive Sight where
  | ticked (outcome : Except RuntimeError Bool)
  | received (values : List Word)

/-- The bound of a tick. -/
def Move.bound? : Move → Option Nat
  | .tick bound => some bound
  | .receive _ => none

/-- What a tick reports. -/
def Sight.outcome? : Sight → Option (Except RuntimeError Bool)
  | .ticked outcome => some outcome
  | .received _ => none

/-- The values that are received. -/
def Sight.values : Sight → List Word
  | .ticked _ => []
  | .received values => values

/-- Makes one move, and says what is seen of it. -/
def perform (emu : Emulator) : Move → Option (Sight × Emulator)
  | .tick bound => (emu.tick bound).map fun r => (.ticked r.1, r.2)
  | .receive limit =>
    let r := emu.onOutput fun c =>
      let r := c.receive limit []
      (r.values, r.channel)
    some (.received r.1, r.2)

/-- Makes moves one after the other. -/
def performAll (emu : Emulator) : List Move → Option (List Sight × Emulator)
  | [] => some ([], emu)
  | move :: moves =>
    (emu.perform move).bind fun r =>
      (performAll r.2 moves).map fun rest => (r.1 :: rest.1, rest.2)

/-- All values that were received. -/
def received (sights : List Sight) : List Word := sights.flatMap Sight.values

/-- How all ticks went. -/
def outcomes (sights : List Sight) : List (Except RuntimeError Bool) :=
  sights.filterMap Sight.outcome?

/-- Whether a tick failed since the channel was full. -/
def isRefused : Except RuntimeError Bool → Bool
  | .error ⟨_, _, .channel .full⟩ => true
  | _ => false

/-- The values that a machine put out, without those whose own tick was refused. -/
def delivered (results : List (Except MachineError (Option Word)))
    (outcomes : List (Except RuntimeError Bool)) : List Word :=
  (results.zip outcomes).filterMap fun r => if isRefused r.2 then none else emitted? r.1

/-- What ticks deliver is put together tick by tick. -/
private theorem delivered_cons (result : Except MachineError (Option Word))
    (outcome : Except RuntimeError Bool) (results : List (Except MachineError (Option Word)))
    (outcomes : List (Except RuntimeError Bool)) :
    delivered (result :: results) (outcome :: outcomes) =
      delivered [result] [outcome] ++ delivered results outcomes := by
  unfold delivered
  rw [← List.filterMap_append]
  rfl

/-- A refused output is not delivered. -/
private theorem delivered_of_isRefused {outcome : Except RuntimeError Bool}
    (hrefused : isRefused outcome = true) (result : Except MachineError (Option Word)) :
    delivered [result] [outcome] = [] := by
  simp [delivered, hrefused]

/-- A tick without an output delivers nothing. -/
theorem delivered_of_emitted? {result : Except MachineError (Option Word)}
    (hnone : emitted? result = none) (outcome : Except RuntimeError Bool) :
    delivered [result] [outcome] = [] := by
  simp [delivered, hnone]

/-- An emulator in step with a machine, and the values that wait in its output queue. -/
structure Awaits (inputs : List Word) (capacity : Int) (emu : Emulator) (m : Machine)
    (waiting : List Word) : Prop where
  machine : emu.machine.Matches m
  input : emu.input.Replays inputs
  output : ∃ q, emu.output = some (.queue q) ∧ q.Holds capacity waiting

/-- A tick goes as the run of the machine does. It is refused exactly if this puts out a value
and the queue is full, and then leaves the queue alone. -/
structure Delivers (capacity : Int) (emu : Emulator) (waiting : List Word)
    (r : Except RuntimeError Bool × Emulator) (stop : Machine.Stop) : Prop where
  refused_iff : isRefused r.1 = true ↔
    (∃ value, stop.result = .ok (some value)) ∧ capacity ≤ waiting.length
  unchanged : isRefused r.1 = true → r.2.output = emu.output
  produced : r.2.produced = emu.produced + (emitted? stop.result).toList.length

section

variable {inputs waiting : List Word} {capacity : Int} {emu : Emulator} {m : Machine}

/-- A value for a queue is counted, whether it is taken or not. -/
theorem deliver_queue {q : Queue} (houtput : emu.output = some (.queue q)) (value : Word) :
    emu.deliver (.ok (some value)) =
      if q.isFull then
        (.error (emu.failure emu.machine.ip (.channel .full)),
          { emu with produced := emu.produced + 1 })
      else
        (.ok false,
          { emu with output := some (.queue (q.push value)), produced := emu.produced + 1 }) := by
  obtain ⟨verbose, machine, listing, image, input, output, produced⟩ := emu
  obtain rfl : output = some (.queue q) := houtput
  simp only [deliver, sendOutput, onOutput, Channel.send, Channel.refusal?]
  cases q.isFull with
  | true => rfl
  | false => rfl

/-- One tick. -/
theorem Awaits.tick (h : Awaits inputs capacity emu m waiting) (bound : Nat) :
    Option.Rel
      (fun r stop =>
        Awaits inputs capacity r.2 stop.machine (waiting ++ delivered [stop.result] [r.1]) ∧
          Delivers capacity emu waiting r stop)
      (emu.tick bound) (m.resume bound inputs) := by
  obtain ⟨q, houtput, hholds⟩ := h.output
  rw [tick_eq h.machine h.input]
  cases m.resume bound inputs with
  | none => exact .none
  | some stop =>
    obtain ⟨result, next, left⟩ := stop
    have hmatches := Machine.matches_rename next emu.machine.name emu.verbose
    have hwaits : Awaits inputs capacity (emu.stopped next) next waiting :=
      ⟨hmatches, h.input.loaded, q, houtput, hholds⟩
    refine .some ?_
    rcases result with e | _ | value
    · refine ⟨?_, by simp [deliver, failure, isRefused], fun _ => rfl, rfl⟩
      rw [delivered_of_emitted? rfl, List.append_nil]
      exact hwaits
    · refine ⟨?_, by simp [deliver, isRefused], fun _ => rfl, rfl⟩
      rw [delivered_of_emitted? rfl, List.append_nil]
      exact hwaits
    · dsimp only
      have hvalue : ∃ v, (Except.ok (some value) : Except MachineError _) = .ok (some v) :=
        ⟨value, rfl⟩
      rw [deliver_queue (show (emu.stopped next).output = some (.queue q) from houtput)]
      by_cases hfull : capacity ≤ waiting.length
      · rw [if_pos (hholds.isFull_iff.mpr hfull)]
        refine ⟨?_, ⟨fun _ => ⟨hvalue, hfull⟩, fun _ => rfl⟩, fun _ => rfl, rfl⟩
        rw [delivered_of_isRefused rfl, List.append_nil]
        exact ⟨hmatches, h.input.loaded, q, houtput, hholds⟩
      · rw [if_neg (mt hholds.isFull_iff.mp hfull)]
        refine ⟨⟨hmatches, h.input.loaded, _, rfl, hholds.pushWith hfull ⟨value, Queue.isSlack⟩⟩,
          ⟨fun hrefused => ?_, fun hboth => absurd hboth.2 hfull⟩, fun hrefused => ?_, rfl⟩
        · cases hrefused
        · cases hrefused

/-- Receiving once. -/
theorem Awaits.receive (h : Awaits inputs capacity emu m waiting) (limit : Option Nat) :
    ∃ values left next, emu.perform (.receive limit) = some (.received values, next) ∧
      Awaits inputs capacity next m left ∧ values ++ left = waiting ∧
      next.produced = emu.produced := by
  obtain ⟨hmachine, hinput, q, houtput, hholds⟩ := h
  obtain ⟨rest, hreceive, hrest⟩ := hholds.receive_nil limit
  obtain ⟨verbose, machine, listing, image, input, output, produced⟩ := emu
  obtain rfl : output = some (.queue q) := houtput
  refine ⟨limit.elim waiting waiting.take, limit.elim [] waiting.drop,
    ⟨verbose, machine, listing, image, input, some (.queue rest), produced⟩, ?_,
    ⟨hmachine, hinput, rest, rfl, hrest⟩, ?_, rfl⟩
  · simp only [perform, onOutput, hreceive]
  · cases limit with
    | none => exact List.append_nil waiting
    | some n => exact List.take_append_drop n waiting

/-- The account of some moves: what was received of the values that waited and the outputs of
the machine, what is left, and how many outputs there were. -/
structure Balanced (inputs : List Word) (capacity : Int) (emu : Emulator) (waiting : List Word)
    (r : List Sight × Emulator) (s : List (Except MachineError (Option Word)) × Machine)
    (left : List Word) : Prop where
  awaits : Awaits inputs capacity r.2 s.2 left
  length : s.1.length = (outcomes r.1).length
  balance : received r.1 ++ left = waiting ++ delivered s.1 (outcomes r.1)
  produced : r.2.produced = emu.produced + (s.1.filterMap emitted?).length

section Balanced

variable {rest : List Sight × Emulator} {s : List (Except MachineError (Option Word)) × Machine}
  {left : List Word}

/-- A tick in front of other moves. -/
theorem Balanced.tick {r : Except RuntimeError Bool × Emulator} {stop : Machine.Stop}
    (hdelivers : Delivers capacity emu waiting r stop)
    (h : Balanced inputs capacity r.2 (waiting ++ delivered [stop.result] [r.1]) rest s left) :
    Balanced inputs capacity emu waiting (.ticked r.1 :: rest.1, rest.2)
      (stop.result :: s.1, s.2) left := by
  obtain ⟨hleft, hlength, hbalance, hproduced⟩ := h
  refine ⟨hleft, congrArg (· + 1) hlength, ?_, ?_⟩
  · have houtcomes : outcomes (.ticked r.1 :: rest.1) = r.1 :: outcomes rest.1 := rfl
    rw [houtcomes, delivered_cons, ← List.append_assoc]
    exact hbalance
  · rw [hproduced, hdelivers.produced]
    cases hemitted : emitted? stop.result with
    | none => simp [hemitted]
    | some value =>
      simp only [List.filterMap_cons, hemitted, List.length_cons, Option.toList_some,
        List.length_nil]
      omega

/-- Receiving in front of other moves. -/
theorem Balanced.receive {values kept : List Word} {next : Emulator}
    (hvalues : values ++ kept = waiting) (hcount : next.produced = emu.produced)
    (h : Balanced inputs capacity next kept rest s left) :
    Balanced inputs capacity emu waiting (.received values :: rest.1, rest.2) s left := by
  refine ⟨h.awaits, h.length, ?_, by rw [h.produced, hcount]⟩
  change values ++ received rest.1 ++ left = waiting ++ delivered s.1 (outcomes rest.1)
  rw [List.append_assoc, h.balance, ← List.append_assoc, hvalues]

end Balanced

/-- All moves. -/
theorem Awaits.performAll (h : Awaits inputs capacity emu m waiting) (moves : List Move) :
    Option.Rel (fun r s => ∃ left, Balanced inputs capacity emu waiting r s left)
      (emu.performAll moves) (m.resumeEach inputs (moves.filterMap Move.bound?)) := by
  induction moves generalizing emu m waiting with
  | nil => exact .some ⟨waiting, h, rfl, (List.append_nil waiting).symm, rfl⟩
  | cons move moves ih =>
    cases move with
    | tick bound =>
      have htick := h.tick bound
      have hbounds : (Move.tick bound :: moves).filterMap Move.bound? =
          bound :: moves.filterMap Move.bound? := rfl
      rw [hbounds, Emulator.performAll, perform, Machine.resumeEach]
      generalize emu.tick bound = r at htick ⊢
      generalize m.resume bound inputs = stop at htick ⊢
      cases htick with
      | none => exact .none
      | @some r stop hstep =>
        obtain ⟨hnext, hdelivers⟩ := hstep
        have hrest := ih hnext
        simp only [Option.map_some, Option.bind_some]
        generalize r.2.performAll moves = rest at hrest ⊢
        generalize stop.machine.resumeEach inputs (moves.filterMap Move.bound?) = s at hrest ⊢
        cases hrest with
        | none => exact .none
        | some hbalanced =>
          obtain ⟨left, hbalanced⟩ := hbalanced
          exact .some ⟨left, hbalanced.tick hdelivers⟩
    | receive limit =>
      obtain ⟨values, kept, next, hperform, hnext, hvalues, hcount⟩ := h.receive limit
      have hrest := ih hnext
      have hbounds : (Move.receive limit :: moves).filterMap Move.bound? =
          moves.filterMap Move.bound? := rfl
      rw [hbounds, Emulator.performAll, hperform, Option.bind_some]
      generalize next.performAll moves = rest at hrest ⊢
      generalize m.resumeEach inputs (moves.filterMap Move.bound?) = s at hrest ⊢
      cases hrest with
      | none => exact .none
      | some hbalanced =>
        obtain ⟨left, hbalanced⟩ := hbalanced
        exact .some ⟨left, hbalanced.receive hvalues hcount⟩

end

/-! ## All outputs are accounted for -/

/-- All outputs are accounted for. Let an emulator have a program, an input channel that
replays values and an output queue of any capacity. Then it can be reset, and after any ticks
and partial receiving from there on, it is in step with a fresh machine that was resumed once
for each tick. The values received so far and those that wait are the outputs of the machine
in order, without those whose own tick was refused; and all of them are counted. A further
tick is refused exactly when the machine puts out a value while as many wait as the queue has
room for. It then leaves the queue as it was, and the machine active right behind the output
instruction. -/
theorem outputs_accounted (emu : Emulator) (name : String) (inputs : List Word) (q : Queue)
    (hprogram : emu.program ≠ #[]) (hinput : emu.input.Replays inputs)
    (houtput : emu.output = some (.queue q)) :
    ∃ started, emu.reset = .ok started ∧ ∀ moves,
      Option.Rel
        (fun r s => ∃ waiting, Awaits inputs q.capacity r.2 s.2 waiting ∧
          s.1.length = (outcomes r.1).length ∧
          received r.1 ++ waiting = delivered s.1 (outcomes r.1) ∧
          r.2.produced = (s.1.filterMap emitted?).length ∧
          ∀ bound, Option.Rel
            (fun t stop => t.2.machine.Matches stop.machine ∧
              (isRefused t.1 = true ↔
                (∃ value, stop.result = .ok (some value)) ∧ q.capacity ≤ waiting.length) ∧
              (isRefused t.1 = true → t.2.output = r.2.output ∧ t.2.machine.active = true ∧
                ∃ value, s.2.PutsOut inputs value stop.machine))
            (r.2.tick bound) (s.2.resume bound inputs))
        (started.performAll moves)
        ((Machine.ofImage name emu.program).reset.resumeEach inputs
          (moves.filterMap Move.bound?)) := by
  obtain ⟨started, hreset, hproduced, hchannel, hrewound, hmachine⟩ := reset_eq_ok hprogram name
  have hempty : started.output = some (.queue q.clear) := by
    rw [(of_reset hreset).2, houtput]
    rfl
  have hstart : Awaits inputs q.capacity started (Machine.ofImage name emu.program).reset [] :=
    ⟨hmachine, hrewound ▸ hinput.rewind, q.clear, hempty, rfl, Nat.le_refl _, rfl,
      Int.le_max_right _ _⟩
  refine ⟨started, hreset, fun moves => ?_⟩
  have hmoves := hstart.performAll moves
  generalize started.performAll moves = r at hmoves ⊢
  generalize (Machine.ofImage name emu.program).reset.resumeEach inputs _ = s at hmoves ⊢
  cases hmoves with
  | none => exact .none
  | @some r s hbalanced =>
    obtain ⟨waiting, hwaits, hlength, hbalance, hcount⟩ := hbalanced
    refine .some ⟨waiting, hwaits, hlength, hbalance, by rw [hcount, hproduced, Nat.zero_add],
      fun bound => ?_⟩
    have htick := hwaits.tick bound
    have hputs (value : Word) (stop : Machine.Stop) (hresume : s.2.resume bound inputs = some stop)
        (hresult : stop.result = .ok (some value)) : s.2.PutsOut inputs value stop.machine := by
      obtain ⟨result, next, left⟩ := stop
      obtain rfl : result = .ok (some value) := hresult
      exact Machine.putsOut_of_resume hresume
    generalize r.2.tick bound = t at htick ⊢
    generalize s.2.resume bound inputs = stop at htick hputs ⊢
    cases htick with
    | none => exact .none
    | @some t stop hstep =>
      obtain ⟨hnext, hdelivers⟩ := hstep
      refine .some ⟨hnext.machine, hdelivers.refused_iff, fun hrefused => ?_⟩
      obtain ⟨⟨value, hresult⟩, _⟩ := hdelivers.refused_iff.mp hrefused
      have hout := hputs value stop rfl hresult
      refine ⟨hdelivers.unchanged hrefused, ?_, value, hout⟩
      rw [hnext.machine.active, hout.active]

/-- An emulator that puts out three numbers to a queue with room for one. -/
def crowded : Emulator :=
  { image := #[104, 1, 104, 2, 104, 3, 99], output := some (.queue { capacity := 1 }) }

/-- The second number is refused, and the third finds room again since the first was
received. -/
theorem outputs_accounted_crowded :
    crowded.program ≠ #[] ∧ crowded.input.Replays [] ∧
      ∃ started r q, crowded.reset = .ok started ∧
        started.performAll [.tick 9, .tick 9, .receive (some 1), .tick 9] = some r ∧
        outcomes r.1 = [.ok false, .error ⟨4, 0, .channel .full⟩, .ok false] ∧
        received r.1 = [1] ∧ r.2.output = some (.queue q) ∧ q.Holds 1 [3] ∧ r.2.produced = 3 := by
  have hprogram : crowded.program ≠ #[] := by decide
  have hinput : crowded.input.Replays [] := .fixed []
  have hresults : ((Machine.ofImage "A" crowded.program).reset.resumeEach [] [9, 9, 9]).map
      Prod.fst = some [.ok (some 1), .ok (some 2), .ok (some 3)] := rfl
  obtain ⟨s, hs, hresults⟩ := Option.map_eq_some_iff.mp hresults
  obtain ⟨started, hreset, hmoves⟩ := outputs_accounted crowded "A" [] _ hprogram hinput rfl
  have haccount := hmoves [.tick 9, .tick 9, .receive (some 1), .tick 9]
  have hbounds : [Move.tick 9, .tick 9, .receive (some 1), .tick 9].filterMap Move.bound? =
      [9, 9, 9] := rfl
  rw [hbounds, hs] at haccount
  obtain ⟨r, hr, houtcomes, hreceived⟩ : ∃ r,
      started.performAll [.tick 9, .tick 9, .receive (some 1), .tick 9] = some r ∧
        outcomes r.1 = [.ok false, .error ⟨4, 0, .channel .full⟩, .ok false] ∧
        received r.1 = [1] := by
    obtain rfl := Except.ok.inj hreset
    exact ⟨_, rfl, rfl, rfl⟩
  rw [hr] at haccount
  cases haccount with
  | some hrel =>
    obtain ⟨waiting, hwaits, _, hbalance, hproduced, _⟩ := hrel
    obtain ⟨q, houtput, hholds⟩ := hwaits.output
    rw [houtcomes, hreceived, hresults] at hbalance
    rw [hresults] at hproduced
    obtain rfl : waiting = [3] := (List.cons.inj hbalance).2
    exact ⟨hprogram, hinput, started, r, q, hreset, hr, houtcomes, hreceived, houtput, hholds,
      hproduced⟩

end Emulator

end TapeMachine
