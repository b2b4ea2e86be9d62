import TapeMachine.Proofs.CompiledRun
import TapeMachine.Proofs.ReadingLayout
import TapeMachine.Proofs.Suspension

/-!
# The place of a runtime error

A tick executes a stretch of instructions and one more, at which the machine stops. If this
one fails, the error has its address. If it is an output that the channel refuses, the
machine is past it by then, and the error has the address behind it. Either way the line is
the one that the listing has for the address of the error.
-/

namespace TapeMachine

/-! ## Output instructions -/

namespace Machine

variable {m next : Machine} {word value : Word} {inputs left : List Word} {op : Opcode}

/-- Only an output instruction emits a value, and this is the one of its parameter. -/
theorem output_of_effect (heffect : m.effect word inputs op = .ok (.emit value)) :
    op = .output ∧ m.load word 1 = .ok value := by
  rcases effect_eq_ok heffect with ⟨_, _, he⟩ | ⟨_, hop, hload, he⟩ | ⟨_, _, he⟩ | he | ⟨_, he⟩ | he
  · cases he
  · cases he
    exact ⟨hop, hload⟩
  · cases he
  · cases he
  · cases he
  · cases he

/-- Only an emitted value is reported as an output, and it changes nothing else. -/
private theorem apply_eq_output {e : Effect} {ip : Word}
    (happly : (m.apply ip e).2 = .output value) :
    e = .emit value ∧ (m.apply ip e).1 = { m with ip, ticks := m.ticks + 1 } := by
  obtain ⟨name, verbose, tape, ip', base, ticks, active⟩ := m
  cases e with
  | emit value' =>
    cases happly
    exact ⟨rfl, rfl⟩
  | store | jump | proceed | rebase | halt => cases happly

/-- An instruction that puts a value out leads past itself and its parameter, and changes
nothing else. -/
theorem of_tick_output (htick : m.tick inputs = ⟨.ok (.output value), next, left⟩) :
    m.active = true ∧ left = inputs ∧ next = { m with ip := m.ip + 2, ticks := m.ticks + 1 } ∧
      ∃ word, m.StandsAt word .output ∧ m.load word 1 = .ok value := by
  have hactive : m.active = true := by
    by_contra hinactive
    unfold tick at htick
    rw [if_neg hinactive] at htick
    cases htick
  rcases m.standing_cases with hip | ⟨word, hword, hop⟩ | ⟨word, op, hat⟩
  · rw [tick_of_outside hactive hip] at htick
    cases htick
  · rw [tick_of_unknown hactive hword hop] at htick
    cases htick
  · rw [hat.tick_eq hactive] at htick
    cases heffect : m.effect word inputs op with
    | error failure =>
      rw [heffect] at htick
      cases htick
    | ok e =>
      rw [heffect] at htick
      obtain ⟨hresult, hmachine, hleft⟩ := Tick.mk.inj htick
      obtain ⟨rfl, happly⟩ := apply_eq_output (Except.ok.inj hresult)
      obtain ⟨rfl, hload⟩ := output_of_effect heffect
      have hpast : m.ip + 1 + Int64.ofNat Opcode.output.arity = m.ip + 2 := by
        rw [Int64.add_assoc]
        rfl
      refine ⟨hactive, hleft.symm, ?_, word, hat, hload⟩
      rw [← hmachine, happly, hpast]

/-- A run that stops at an output does so behind an output instruction. -/
theorem tick_of_stop?_output {t : Tick} (hstop : t.stop? = some ⟨.ok (some value), next, left⟩) :
    t = ⟨.ok (.output value), next, left⟩ := by
  obtain ⟨result, machine, rest⟩ := t
  rcases result with e | event
  · cases hstop
  · cases event with
    | ran => cases hstop
    | output value' =>
      cases hstop
      rfl
    | halted => cases hstop

end Machine

/-! ## The line of an address -/

namespace Listing

/-- The line of an address: that of an entry with a word there, or zero if there is none. -/
inductive LineAt (l : Listing) (ip : Word) : Int → Prop where
  | entry {e : Entry} (he : e ∈ l.entries) (hcovers : e.covers ip = true) : LineAt l ip e.line
  | outside (hnone : ∀ e ∈ l.entries, e.covers ip = false) : LineAt l ip 0

/-- In a listing without gaps no address has two entries. -/
private theorem Contiguous.eq_of_covers {l : Listing} (h : Contiguous l.entries.toList)
    (hsize : (codesOf l.entries.toList).length < 2 ^ 63) {ip : Word} {d e : Entry}
    (hd : d ∈ l.entries) (he : e ∈ l.entries) (hdcovers : d.covers ip = true)
    (hecovers : e.covers ip = true) : d = e := by
  have hfound {c : Entry} (hc : c ∈ l.entries) (hcovers : c.covers ip = true) :
      ∃ i : Int, l.find? ip = some (c, i) := by
    obtain ⟨⟨entries⟩⟩ := l
    obtain ⟨before, after, rfl⟩ := List.append_of_mem (Array.mem_toList_iff.mpr hc)
    obtain ⟨hle, hlt⟩ := (h.covers_iff hsize ip).mp hcovers
    have hat := h.find?_eq hsize (i := ip.toInt.toNat - (codesOf before).length) (by omega)
    have haddress : Int64.ofNat
        ((codesOf before).length + (ip.toInt.toNat - (codesOf before).length)) = ip := by
      have hnat : (codesOf before).length + (ip.toInt.toNat - (codesOf before).length) =
          ip.toInt.toNat := by omega
      rw [hnat, ← Int64.toInt_inj, Int64.toInt_ofNat_of_lt]
      · omega
      · have := ip.toInt_lt
        omega
    rw [haddress] at hat
    exact ⟨_, hat⟩
  obtain ⟨i, hi⟩ := hfound hd hdcovers
  obtain ⟨j, hj⟩ := hfound he hecovers
  exact congrArg Prod.fst (Option.some.inj (hi.symm.trans hj))

end Listing

namespace Emulator

/-- The line of an address is that of the entry which covers it. -/
private theorem lineAt_lineOf (emu : Emulator) (ip : Word) : emu.listing.LineAt ip
    (emu.lineOf ip) := by
  unfold lineOf Listing.find?
  cases hfind : emu.listing.entries.find? (·.covers ip) with
  | none =>
    refine .outside fun e he => ?_
    simpa using Array.find?_eq_none.mp hfind e he
  | some e =>
    have hcovers := @Array.find?_some Entry (·.covers ip) e _ hfind
    exact .entry (Array.mem_of_find?_eq_some hfind) hcovers

/-! ## Ticks that fail -/

/-- An output is refused as the channel says, and leaves the machine and the listing alone. -/
theorem sendOutput_eq (emu : Emulator) (value : Word) :
    (emu.sendOutput value).1 = emu.outputChannel.refusal? ∧
      (emu.sendOutput value).2.machine = emu.machine ∧
      (emu.sendOutput value).2.listing = emu.listing := by
  obtain ⟨verbose, machine, listing, image, input, output, produced⟩ := emu
  have hsend (c : Channel) : (c.send value).1 = c.refusal? := by
    unfold Channel.send
    cases c.refusal? with
    | none => rfl
    | some e => rfl
  cases output with
  | none => exact ⟨hsend input, rfl, rfl⟩
  | some c => exact ⟨hsend c, rfl, rfl⟩

/-- Delivering a result leaves the listing alone. -/
private theorem listing_deliver (emu : Emulator) (result : Except MachineError (Option Word)) :
    (emu.deliver result).2.listing = emu.listing := by
  match result with
  | .error e => rfl
  | .ok none => rfl
  | .ok (some value) =>
    rw [deliver_value]
    exact (sendOutput_eq emu value).2.2

/-- A tick leaves the listing alone. -/
private theorem listing_tick {bound : Nat} {emu after : Emulator}
    {outcome : Except RuntimeError Bool}
    (htick : emu.tick bound = some (outcome, after)) : after.listing = emu.listing := by
  rw [tick_eq_map, Option.map_eq_some_iff] at htick
  obtain ⟨stop, _, hdelivered⟩ := htick
  have hlisting := listing_deliver { emu.takeInput.2 with machine := stop.machine } stop.result
  rw [hdelivered] at hlisting
  exact hlisting

/-- A reset leaves the listing alone and rewinds the output channel. -/
theorem of_reset {emu started : Emulator} (hreset : emu.reset = .ok started) :
    started.listing = emu.listing ∧ started.output = emu.output.map Channel.rewind := by
  unfold reset at hreset
  dsimp only at hreset
  split at hreset
  · cases hreset
  · cases hreset
    exact ⟨rfl, rfl⟩

/-- Ticks one after the other, however each of them goes. -/
inductive Ticked : Emulator → Emulator → Prop where
  | nil (emu : Emulator) : Ticked emu emu
  | cons {emu next last : Emulator} {bound : Nat} {outcome : Except RuntimeError Bool}
    (htick : emu.tick bound = some (outcome, next)) (hrest : Ticked next last) : Ticked emu last

/-- Ticks leave the listing alone. -/
private theorem Ticked.listing_eq {emu last : Emulator} (h : Ticked emu last) :
    last.listing = emu.listing := by
  induction h with
  | nil => rfl
  | cons htick _ ih => exact ih.trans (listing_tick htick)

/-- The last instruction of a tick: the machine that stands at it, and the inputs that are
left by then. -/
def EndsAt (emu : Emulator) (m : Machine) (left : List Word) : Prop :=
  ∃ k, Machine.Stretch k emu.takeInput.2.machine emu.takeInput.1 m left ∧
    (m.tick left).result ≠ .ok .ran

/-- How a tick of an active machine fails: at an instruction that does, or behind an output
that is refused. -/
inductive Fails (emu : Emulator) (e : RuntimeError) (m : Machine) (left : List Word) : Prop where
  | fault {f : Fault} (hfault : (m.tick left).result = .error (.fault f))
    (hcause : e.cause = .machine (.fault f)) (hip : e.ip = m.ip)
  | refusal {word value : Word} {refusal : ChannelError} (hat : m.StandsAt word .output)
    (houtput : (m.tick left).result = .ok (.output value))
    (hrefusal : emu.takeInput.2.outputChannel.refusal? = some refusal)
    (hcause : e.cause = .channel refusal) (hip : e.ip = m.ip + 2)

/-- A tick that fails has the line of its address, and ended at an instruction for which it
fails. -/
theorem fails_of_tick {bound : Nat} {emu after : Emulator} {e : RuntimeError}
    (hactive : emu.machine.active = true) (htick : emu.tick bound = some (.error e, after)) :
    e.line = emu.lineOf e.ip ∧ ∃ m left, m.active = true ∧ emu.EndsAt m left ∧
      emu.Fails e m left := by
  rw [tick_eq_map, Option.map_eq_some_iff] at htick
  obtain ⟨stop, hresume, hdelivered⟩ := htick
  obtain ⟨k, m, left, _, hstretch, hstop⟩ := Machine.resume_eq_some_iff.mp hresume
  have hm : m.active = true := hstretch.active hactive
  obtain ⟨result, machine, rest⟩ := stop
  rcases result with error | _ | value
  · obtain ⟨_, _, herror⟩ := Machine.of_stop? hstop
    have hresult := (herror error).mp rfl
    obtain ⟨cause, rfl, _⟩ := (Machine.contained_of_error hm hresult).located
    cases hdelivered
    exact ⟨rfl, m, left, hm, ⟨k, hstretch, by simp [hresult]⟩, .fault hresult rfl rfl⟩
  · cases hdelivered
  · have hlast := Machine.tick_of_stop?_output hstop
    obtain ⟨_, _, rfl, word, hat, _⟩ := Machine.of_tick_output hlast
    have hresult := congrArg Machine.Tick.result hlast
    rw [deliver_value] at hdelivered
    obtain ⟨hrefusal, hmachine, hlisting⟩ := sendOutput_eq
      { emu.takeInput.2 with machine := { m with ip := m.ip + 2, ticks := m.ticks + 1 } } value
    obtain ⟨houtcome, _⟩ := Prod.mk.inj hdelivered
    rw [hrefusal, hmachine] at houtcome
    change (emu.takeInput.2.outputChannel.refusal?).elim _ _ = _ at houtcome
    cases hrefuses : emu.takeInput.2.outputChannel.refusal? with
    | none =>
      rw [hrefuses] at houtcome
      cases houtcome
    | some refusal =>
      rw [hrefuses] at houtcome
      obtain rfl := Except.error.inj houtcome
      refine ⟨?_, m, left, hm, ⟨k, hstretch, by simp [hresult]⟩,
        .refusal hat hresult hrefuses rfl rfl⟩
      simp only [failure, lineOf, hlisting]
      rfl

/-! ## An output that is refused -/

namespace RefusedOutput

/-- A source that puts a number out, and then goes on to a word that is no instruction. -/
def source : Source := { text := "out #1\n.data 42" }

/-- The entry of the output. -/
def outEntry : Entry := ⟨1, 0, ["out", "#1"], [⟨104, none⟩, ⟨1, none⟩]⟩

/-- The entry behind it. -/
def dataEntry : Entry := ⟨2, 2, [".data", "42"], [⟨42, none⟩]⟩

/-- The listing of the source. -/
def listing : Listing := ⟨#[outEntry, dataEntry]⟩

open Assembler (Bare fresh)

/-- An assembler that has read the first line. -/
def outRead : Assembler := ((fresh {}).numbered 1).added outEntry

/-- No equates or macros were read. -/
theorem bare_outRead : Bare outRead := (Bare.fresh.numbered 1).added outEntry

/-- The output is assembled. -/
theorem run_outLine :
    (Assembler.readSourceLine 1 "out #1" none).run (fresh {}) = .ok none outRead := by
  have hfields : (Text.fields "out #1".toList).map String.ofList = ["out", "#1"] := rfl
  have hwords : ((fresh {}).numbered 1).wordsOf "out #1" = .ok ["out", "#1"] := by
    rw [Assembler.wordsOf_of_not_mem (by decide) (by decide)]
    rfl
  exact Assembler.run_readSourceLine_of_lower (by rw [hfields]; decide) (by rw [hfields]; decide)
    hwords (by decide) (Assembler.run_defineLabels_of_none rfl _ _) (Bare.fresh.numbered 1)
    (by decide) rfl (by decide)

/-- The word behind it is assembled. -/
theorem run_dataLine :
    (Assembler.readSourceLine 2 ".data 42" none).run outRead =
      .ok none ((outRead.numbered 2).added dataEntry) := by
  have hfields : (Text.fields ".data 42".toList).map String.ofList = [".data", "42"] := rfl
  have hwords : (outRead.numbered 2).wordsOf ".data 42" = .ok [".data", "42"] := by
    rw [Assembler.wordsOf_of_not_mem (by decide) (by decide)]
    rfl
  exact Assembler.run_readSourceLine_of_lower (by rw [hfields]; decide) (by rw [hfields]; decide)
    hwords (by decide) (Assembler.run_defineLabels_of_none rfl _ _) (bare_outRead.numbered 2)
    (by decide) rfl (by decide)

/-- The source is assembled to its two entries. -/
theorem run_parse (order : Assembler.LinkOrder) :
    (Assembler.parse order source).run ({} : Assembler) =
      .ok listing ((outRead.numbered 2).added dataEntry) := by
  have hlines : source.lines = ["out #1", ".data 42"] := rfl
  have hout : Assembler.stripped "out #1" = "out #1" := rfl
  have hdata : Assembler.stripped ".data 42" = ".data 42" := rfl
  have hread : (Assembler.readLines {} source.lines).run (fresh {}) =
      .ok ⟨2, ".data 42", none⟩ ((outRead.numbered 2).added dataEntry) := by
    rw [hlines, Assembler.readLines, hout, EStateM.run_bind, Assembler.Course.run_within,
      run_outLine]
    dsimp only
    rw [Assembler.readLines, hdata, EStateM.run_bind, Assembler.Course.run_within, run_dataLine]
    rfl
  refine Assembler.run_parse rfl rfl hread rfl (Assembler.run_link_of_unlabelled ?_)
  intro e he t ht
  have hall : ∀ e ∈ [outEntry, dataEntry], ∀ t ∈ e.terms, t.label = none := by decide
  exact hall e he t ht

/-- An emulator for this listing whose output takes nothing. -/
def emulator : Emulator := { listing, output := some (.queue {}) }

/-- The same emulator once it is reset. -/
def started : Emulator :=
  { emulator with machine := (Machine.ofImage machineName #[104, 1, 42]).reset }

/-- The emulator can be reset. -/
theorem reset_emulator : emulator.reset = .ok started := rfl

/-- The output is refused, and the next tick fails at the same place. -/
theorem tick_started :
    ∃ refused, started.tick 5 = some (.error ⟨2, 2, .channel .full⟩, refused) ∧
      refused.machine.active = true ∧
      ∃ after, refused.tick 5 =
        some (.error ⟨2, 2, .machine (.fault ⟨2, 42, .unknownOpcode 42⟩)⟩, after) :=
  ⟨_, rfl, rfl, _, rfl⟩

end RefusedOutput

/-! ## The place of an error -/

/-- The place of a runtime error. Let a program that was assembled be loaded by a reset, and
let a tick of the active machine fail, after any others. It ends at an instruction that
itself fails, or at an output that is refused. In the first case the error has the
address of this instruction; in the second it never does, but has the address behind it.
Its line is that of the entry with a word at the address of the error, or zero if there is
none; and no address has two entries, as long as all of them are words. -/
theorem place_of_error {order : Assembler.LinkOrder} {source : Source} {a b : Assembler}
    {l : Listing} (hparse : (Assembler.parse order source).run a = .ok l b)
    {emu started now after : Emulator} (hlisting : emu.listing = l)
    (hreset : emu.reset = .ok started) (hticks : started.Ticked now)
    (hactive : now.machine.active = true) {bound : Nat} {e : RuntimeError}
    (htick : now.tick bound = some (.error e, after)) :
    ∃ m left, m.active = true ∧ now.EndsAt m left ∧ now.Fails e m left ∧
      (e.ip = m.ip ↔ ∃ f, (m.tick left).result = .error (.fault f)) ∧
      l.LineAt e.ip e.line ∧
      ((Listing.codesOf l.entries.toList).length < 2 ^ 63 →
        ∀ c ∈ l.entries, ∀ d ∈ l.entries, ∀ ip, c.covers ip = true → d.covers ip = true →
          c = d) := by
  obtain ⟨hline, m, left, hm, hends, hfails⟩ := fails_of_tick hactive htick
  have hnow : now.listing = l := by rw [hticks.listing_eq, (of_reset hreset).1, hlisting]
  refine ⟨m, left, hm, hends, hfails, ?_, ?_, ?_⟩
  · cases hfails with
    | @fault f hfault _ hip => exact ⟨fun _ => ⟨f, hfault⟩, fun _ => hip⟩
    | refusal _ houtput _ _ hip =>
      constructor
      · intro hsame
        have hself : m.ip + 2 = m.ip := hip.symm.trans hsame
        have htwo : (2 : Word) = 0 := by
          rwa [Int64.add_eq_left] at hself
        cases htwo
      · rintro ⟨f, hfault⟩
        rw [houtput] at hfault
        cases hfault
  · rw [hline, ← hnow]
    exact lineAt_lineOf now e.ip
  · intro hsize c hc d hd ip hcovers hdcovers
    exact (Assembler.Course.contiguous_of_parse hparse).eq_of_covers hsize hc hd hcovers hdcovers

namespace RefusedOutput

/-- The output of a number is refused, and then the word behind it is no instruction. Both
errors are found at the address of that word. -/
theorem place_of_error_refused :
    ∃ e refused, started.tick 5 = some (.error e, refused) ∧
      (∃ m left, started.EndsAt m left ∧ started.Fails e m left ∧ e.cause = .channel .full ∧
        e.ip ≠ m.ip ∧ listing.LineAt 2 e.line) ∧
      ∃ e' after, refused.tick 5 = some (.error e', after) ∧
        ∃ m left, refused.EndsAt m left ∧ refused.Fails e' m left ∧ e'.ip = m.ip ∧
          listing.LineAt 2 e'.line := by
  obtain ⟨refused, hrefused, hactive, after, hfault⟩ := tick_started
  obtain ⟨m, left, _, hends, hfails, hiff, hline, _⟩ :=
    place_of_error (run_parse .ascending) rfl reset_emulator (.nil started) rfl hrefused
  obtain ⟨m', left', _, hends', hfails', hiff', hline', _⟩ :=
    place_of_error (run_parse .ascending) rfl reset_emulator (.cons hrefused (.nil refused)) hactive
      hfault
  refine ⟨_, refused, hrefused, ⟨m, left, hends, hfails, rfl, ?_, hline⟩, _, after, hfault,
    m', left', hends', hfails', ?_, hline'⟩
  · intro hip
    obtain ⟨f, hf⟩ := hiff.mp hip
    cases hfails with
    | fault _ hcause _ => cases hcause
    | refusal _ houtput _ _ _ =>
      rw [houtput] at hf
      cases hf
  · refine hiff'.mpr ?_
    cases hfails' with
    | @fault f hresult _ _ => exact ⟨f, hresult⟩
    | refusal _ _ _ hcause _ => cases hcause

/-- The error of a refused output has neither the address nor the line of the output
instruction, with which the first tick begins and ends. -/
theorem error_behind_instruction :
    ∃ l b, (∀ order, (Assembler.parse order source).run ({} : Assembler) = .ok l b) ∧
      emulator.listing = l ∧
      emulator.reset = .ok started ∧ started.machine.active = true ∧
      ∃ e after, started.tick 5 = some (.error e, after) ∧
        (started.machine.tick []).result = .ok (.output 1) ∧ started.EndsAt started.machine [] ∧
        e.ip ≠ started.machine.ip ∧ ¬ l.LineAt started.machine.ip e.line := by
  obtain ⟨refused, hrefused, _⟩ := tick_started
  have houtput : (started.machine.tick []).result = .ok (.output 1) := rfl
  refine ⟨_, _, run_parse, rfl, reset_emulator, rfl, _, refused, hrefused, houtput,
    ⟨0, .nil _ _, by simp [houtput]⟩, by decide, ?_⟩
  intro hline
  have hlines : ∀ e ∈ [outEntry, dataEntry], e.covers 0 = true → e.line = 1 := by decide
  generalize hn : (2 : Int) = n at hline
  cases hline with
  | outside hnone => cases hn
  | @entry e he hcovers =>
    have hone := hlines e (Array.mem_toList_iff.mpr he) hcovers
    exact absurd (hn.trans hone) (by decide)

end RefusedOutput

end Emulator

end TapeMachine
