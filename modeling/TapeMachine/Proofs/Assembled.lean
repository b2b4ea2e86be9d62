import TapeMachine.Proofs.Execution
import TapeMachine.Proofs.Links

/-!
# Assembled instructions

An instruction line says its operation by its first word, in one of several
spellings, and the modes of its parameters by the form of its operands. These lemmas
follow a line from its words through assembling and linking to a machine that
executes it: the machine finds the operation and the modes that were written, and a
line that is accepted is executable.
-/

namespace TapeMachine

/-- The mode that the form of an operand says. -/
def Operand.writtenMode (word : String) : Mode :=
  match word.toList with
  | '#' :: _ => .immediate
  | ['r', 'b'] | 'r' :: 'b' :: '+' :: _ | 'r' :: 'b' :: '-' :: _ => .relative
  | _ => .position

/-- An operand without a sign of another form is an address. -/
private theorem Operand.writtenMode_of_plain {word : String} (hhash : ∀ cs, word.toList ≠ '#' :: cs)
    (hbase : word.toList ≠ ['r', 'b']) (hplus : ∀ cs, word.toList ≠ 'r' :: 'b' :: '+' :: cs)
    (hminus : ∀ cs, word.toList ≠ 'r' :: 'b' :: '-' :: cs) : writtenMode word = .position := by
  unfold writtenMode
  split
  · exact absurd ‹_› (hhash _)
  · exact absurd ‹_› hbase
  · exact absurd ‹_› (hplus _)
  · exact absurd ‹_› (hminus _)
  · rfl

/-- An operand is read in the mode that its form says. -/
theorem Operand.mode_of_read {equates : Table String} {word : String} {operand : Mode × Term}
    (hread : Operand.read equates word = .ok operand) : operand.1 = writtenMode word := by
  unfold Operand.read at hread
  split at hread
  case h_1 hword =>
    obtain ⟨t, _, hok⟩ := Outcome.bind_eq_ok_iff.mp hread
    cases hok
    simp only [writtenMode, hword]
  case h_2 hword =>
    cases hread
    simp only [writtenMode, hword]
  case h_3 hword =>
    obtain ⟨t, _, hok⟩ := Outcome.bind_eq_ok_iff.mp hread
    cases hok
    simp only [writtenMode, hword]
  case h_4 hword =>
    obtain ⟨t, _, hrest⟩ := Outcome.bind_eq_ok_iff.mp hread
    obtain ⟨u, _, hok⟩ := Outcome.bind_eq_ok_iff.mp hrest
    cases hok
    simp only [writtenMode, hword]
  case h_5 hhash hbase hplus hminus =>
    obtain ⟨t, _, hok⟩ := Outcome.bind_eq_ok_iff.mp hread
    cases hok
    exact (writtenMode_of_plain hhash hbase hplus hminus).symm

/-- The modes of operands are those that their words are written with. -/
theorem Operand.modes_of_read {equates : Table String} {args : List String}
    {operands : List (Mode × Term)}
    (hread : List.Forall₂ (fun word operand => Operand.read equates word = .ok operand)
      args operands) : operands.map Prod.fst = args.map writtenMode := by
  induction hread with
  | nil => rfl
  | cons hfirst _ ih => rw [List.map_cons, List.map_cons, ih, mode_of_read hfirst]

namespace Instruction

/-- The operation that the first word of an instruction names, in any spelling. -/
def writtenOpcode? : String → Option Opcode
  | "halt" => some .halt
  | "jnz" | "jump" => some .jumpTrue
  | "jz" => some .jumpFalse
  | "mov" => some .add
  | name => Opcode.ofMnemonic? name

/-- The modes that an instruction says for its parameters. Some spellings leave one of
them out. -/
def writtenModes : List String → List Mode
  | ["jump", target] => [.immediate, Operand.writtenMode target]
  | ["mov", source, destination] =>
    [Operand.writtenMode source, .immediate, Operand.writtenMode destination]
  | words => words.tail.map Operand.writtenMode

/-- A mnemonic stands for the operation that is written so, and for no other. -/
theorem ofMnemonic?_eq_some_iff {name : String} {op : Opcode} :
    Opcode.ofMnemonic? name = some op ↔ name = op.mnemonic := by
  constructor
  · intro hfind
    have hname := List.find?_some hfind
    exact (beq_iff_eq.mp hname).symm
  · rintro rfl
    cases op <;> decide

/-- Another spelling is no data line. -/
theorem unalias_cons (head : String) (args : List String) :
    ∃ name rest, unalias (head :: args) = name :: rest ∧ (name = ".data" → head = ".data") := by
  unfold unalias
  split
  case h_6 => exact ⟨head, args, rfl, id⟩
  all_goals exact ⟨_, _, rfl, fun h => absurd h (by decide)⟩

/-- The instruction that a spelling stands for has the operation and the modes that
the spelling says. -/
private theorem written_of_unalias {head name : String} {args operands : List String} {op : Opcode}
    (hunalias : unalias (head :: args) = name :: operands)
    (hname : Opcode.ofMnemonic? name = some op) :
    writtenOpcode? head = some op ∧
      operands.map Operand.writtenMode = writtenModes (head :: args) := by
  unfold unalias at hunalias
  split at hunalias
  case h_1 hwords | h_2 hwords | h_3 hwords | h_4 hwords | h_5 hwords =>
    obtain ⟨rfl, rfl⟩ := List.cons.inj hwords
    obtain ⟨rfl, rfl⟩ := List.cons.inj hunalias
    exact ⟨hname ▸ by decide, rfl⟩
  case h_6 hhalt hjnz hjz hjump hmov =>
    obtain ⟨rfl, rfl⟩ := List.cons.inj hunalias
    obtain rfl := ofMnemonic?_eq_some_iff.mp hname
    constructor
    · rw [← hname]; cases op <;> rfl
    · cases op <;> rfl

/-- An operation is assembled if its operands can be read, are as many as it has
parameters, and name a destination where it needs one. -/
theorem assembleOperation_eq_ok_iff {equates : Table String} {op : Opcode} {args : List String}
    {terms : List Term} :
    assembleOperation equates op args = .ok terms ↔
      ∃ operands : List (Mode × Term),
        List.Forall₂ (fun word operand => Operand.read equates word = .ok operand)
          args operands ∧ operands.length = op.arity ∧
        (op.writes = true → (operands.map Prod.fst).getLast? ≠ some .immediate) ∧
        terms = ⟨encode op (operands.map Prod.fst), none⟩ :: operands.map Prod.snd := by
  unfold assembleOperation
  constructor
  · intro hok
    by_cases hfew : args.length < op.arity
    · rw [if_pos hfew] at hok
      cases hok
    by_cases hmany : op.arity < args.length
    · rw [if_neg hfew, if_pos hmany] at hok
      cases hok
    rw [if_neg hfew, if_neg hmany] at hok
    obtain ⟨operands, hoperands, hok⟩ := Outcome.bind_eq_ok_iff.mp hok
    have hread := Outcome.mapM_eq_ok_iff.mp hoperands
    have hlength := hread.length_eq
    dsimp only at hok
    by_cases hlast : op.writes = true ∧ (operands.map Prod.fst).getLast? = some .immediate
    · rw [if_pos (by simpa using hlast)] at hok
      cases hok
    · rw [if_neg (by simpa using hlast)] at hok
      refine ⟨operands, hread, by omega, ?_, (Except.ok.inj hok).symm⟩
      exact fun hwrites himmediate => hlast ⟨hwrites, himmediate⟩
  · rintro ⟨operands, hread, harity, hlast, rfl⟩
    have hlength := hread.length_eq
    have hfits : ¬ (op.writes && (operands.map Prod.fst).getLast? == some .immediate) = true := by
      simpa using hlast
    rw [if_neg (by omega), if_neg (by omega), Outcome.mapM_eq_ok_iff.mpr hread]
    change (if _ then _ else _) = _
    rw [if_neg hfits]
    rfl

/-- What an operation with operands is assembled into. -/
theorem assembleOperation_eq_ok {equates : Table String} {op : Opcode} {args : List String}
    {terms : List Term} (hok : assembleOperation equates op args = .ok terms) :
    ∃ operands : List Term,
      terms = ⟨encode op (args.map Operand.writtenMode), none⟩ :: operands ∧
      args.length = op.arity ∧ operands.length = op.arity ∧
      (op.writes = true → (args.map Operand.writtenMode).getLast? ≠ some .immediate) := by
  obtain ⟨operands, hread, harity, hlast, rfl⟩ := assembleOperation_eq_ok_iff.mp hok
  rw [Operand.modes_of_read hread] at hlast ⊢
  have hlength := hread.length_eq
  exact ⟨operands.map Prod.snd, rfl, by omega, by simpa using harity, hlast⟩

/-- What an instruction line is assembled into. -/
theorem assemble_eq_ok {equates : Table String} {head : String} {args : List String}
    {terms : List Term} (hdata : head ≠ ".data")
    (hok : assemble equates (head :: args) = .ok terms) :
    ∃ op operands, writtenOpcode? head = some op ∧
      terms = ⟨encode op (writtenModes (head :: args)), none⟩ :: operands ∧
      operands.length = op.arity ∧ (writtenModes (head :: args)).length = op.arity ∧
      (op.writes = true → (writtenModes (head :: args)).getLast? ≠ some .immediate) := by
  obtain ⟨name, rest, hunalias, hname⟩ := unalias_cons head args
  unfold assemble at hok
  rw [hunalias] at hok
  split at hok
  case h_1 hnil => cases hnil
  case h_2 hwords => exact absurd (hname (List.cons.inj hwords).1) hdata
  case h_3 hwords =>
    obtain ⟨rfl, rfl⟩ := List.cons.inj hwords
    split at hok
    · cases hok
    · next op hop =>
      obtain ⟨hopcode, hmodes⟩ := written_of_unalias hunalias hop
      obtain ⟨operands, hterms, hargs, hoperands, hlast⟩ := assembleOperation_eq_ok hok
      have hlength := congrArg List.length hmodes
      rw [List.length_map] at hlength
      rw [hmodes] at hterms hlast
      exact ⟨op, operands, hopcode, hterms, hoperands, by omega, hlast⟩

/-- An accepted instruction line gives an executable instruction word. -/
theorem executable_encode {op : Opcode} {modes : List Mode} (hlength : modes.length = op.arity)
    (hlast : op.writes = true → modes.getLast? ≠ some .immediate) :
    Machine.Executable (encode op modes) op := by
  have hthree : modes.length ≤ 3 := hlength ▸ op.arity_le_three
  refine ⟨ofNumber?_opDigits_encode op hthree, ?_, ?_⟩
  · intro n hn hn'
    obtain ⟨i, rfl⟩ : ∃ i, n = i + 1 := ⟨n - 1, by omega⟩
    exact ⟨_, ofNumber?_modeDigit_encode op hthree (by omega)⟩
  · intro hwrites
    obtain ⟨i, hi⟩ : ∃ i, op.arity = i + 1 := by
      cases op <;> first | exact ⟨_, rfl⟩ | cases hwrites
    have hlt : i < modes.length := by omega
    refine ⟨modes[i], hi ▸ ofNumber?_modeDigit_encode op hthree hlt, ?_⟩
    intro himmediate
    apply hlast hwrites
    rw [List.getLast?_eq_getElem?, hlength, hi, Nat.add_sub_cancel, List.getElem?_eq_getElem hlt,
      himmediate]

end Instruction

namespace Assembler

/-- What a line adds to the listing. -/
theorem run_emit {number : Nat} {words : List String} {a b : Assembler}
    (hemit : (emit number words).run a = .ok () b) :
    ∃ terms, Instruction.assemble a.equates words = .ok terms ∧
      b = if terms = [] then a
        else { a with entries := a.entries.push ⟨number, a.here, words, terms⟩ } := by
  unfold emit at hemit
  simp only [EStateM.run_bind, EStateM.run_get] at hemit
  split at hemit
  · cases hemit
  · next hnil =>
    cases hemit
    exact ⟨[], hnil, (if_pos rfl).symm⟩
  · next terms hne hterms =>
    cases hemit
    exact ⟨terms, hterms, (if_neg (fun h => hne h)).symm⟩

/-- What the assembler accepts, the machine can execute. Where an instruction line was
emitted and linked, and its words stand on the tape of an active machine, these words
decode to what the line says. The instruction fails at a negative address or for lack
of input only, and it leads behind its last word unless it takes a jump. -/
theorem tick_of_emitted {number : Nat} {head : String} {args : List String} {a b : Assembler}
    {order : LinkOrder} {labels : Table Word} {place : Nat} {entry linked : Entry} {m : Machine}
    (hhead : head ≠ ".data") (hemit : (emit number (head :: args)).run a = .ok () b)
    (hentry : b.entries.back? = some entry)
    (hlink : linkEntry order labels place entry = .ok () linked) (hactive : m.active = true)
    (hheld : ∀ i (hi : i < linked.codes.length),
      m.tape.read? (m.ip + Int64.ofNat i) = some linked.codes[i]) (inputs : List Word) :
    ∃ op word, Instruction.writtenOpcode? head = some op ∧ linked.codes.head? = some word ∧
      Opcode.ofNumber? (Instruction.opDigits word) = some op ∧
      (List.range op.arity).map (fun n => Mode.ofNumber? (Instruction.modeDigit word (n + 1))) =
        (Instruction.writtenModes (head :: args)).map some ∧
      (∀ error, (m.tick inputs).result = .error error →
        error = .fault ⟨m.ip, word, .negativeAddress⟩ ∨
          op = .input ∧ inputs = [] ∧ error = .fault ⟨m.ip, word, .inputExhausted⟩) ∧
      (∀ event, (m.tick inputs).result = .ok event → ¬ m.TakesJump word op →
        (m.tick inputs).machine.ip = m.ip + Int64.ofNat linked.codes.length) := by
  obtain ⟨terms, hassemble, hb⟩ := run_emit hemit
  obtain ⟨op, operands, hop, rfl, hoperands, hmodes, hlast⟩ :=
    Instruction.assemble_eq_ok hhead hassemble
  rw [if_neg (List.cons_ne_nil _ _)] at hb
  subst hb
  rw [Array.back?_push] at hentry
  obtain rfl := Option.some.inj hentry
  obtain ⟨linkedTerms, hlinked, rfl⟩ := linkEntry_eq_ok_iff.mp hlink
  obtain ⟨first, rest, hfirst, hrest, rfl⟩ := List.forall₂_cons_left_iff.mp hlinked
  cases hfirst
  set modes := Instruction.writtenModes (head :: args)
  have hword := Instruction.executable_encode hmodes hlast
  have hlength : rest.length = op.arity := hrest.length_eq ▸ hoperands
  have hread : m.tape.read? m.ip = some (Instruction.encode op modes) := by
    have hzero := hheld 0 (Nat.succ_pos _)
    rwa [show m.ip + Int64.ofNat 0 = m.ip from Int64.add_zero m.ip] at hzero
  have htick : m.tick inputs = m.execute (Instruction.encode op modes) inputs := by
    unfold Machine.tick
    rw [if_pos hactive, hread]
  refine ⟨op, Instruction.encode op modes, hop, rfl, hword.operation, ?_, ?_, ?_⟩
  · rw [← hmodes]
    exact Instruction.map_modeDigit_encode op (hmodes ▸ op.arity_le_three)
  · intro error herror
    exact hword.error_of_execute (htick ▸ herror)
  · intro event hok hjump
    rw [htick] at hok ⊢
    rw [Machine.ip_execute hword.operation hok hjump]
    rw [Entry.codes, List.length_map, List.length_cons, hlength, Int64.ofNat_add, Int64.add_assoc,
      Int64.add_comm 1]
    rfl

/-- The move of a label to the cell at the relative base. -/
theorem tick_of_emitted_mov :
    let m := (Machine.ofImage "A" #[21101, 5, 0, 0]).reset
    ∃ op word, Instruction.writtenOpcode? "mov" = some op ∧ [21101, 5, 0, 0].head? = some word ∧
      Opcode.ofNumber? (Instruction.opDigits word) = some op ∧
      (List.range op.arity).map (fun n => Mode.ofNumber? (Instruction.modeDigit word (n + 1))) =
        [some .immediate, some .immediate, some .relative] ∧
      (∀ error, (m.tick [7]).result = .error error →
        error = .fault ⟨0, word, .negativeAddress⟩ ∨
          op = .input ∧ ([7] : List Word) = [] ∧ error = .fault ⟨0, word, .inputExhausted⟩) ∧
      (∀ event, (m.tick [7]).result = .ok event → ¬ m.TakesJump word op →
        (m.tick [7]).machine.ip = 4) := by
  intro m
  let entry : Entry := ⟨1, 0, ["mov", "#x", "rb"],
    [⟨21101, none⟩, ⟨0, some "x"⟩, ⟨0, none⟩, ⟨0, none⟩]⟩
  let linked : Entry := ⟨1, 0, ["mov", "#x", "rb"],
    [⟨21101, none⟩, ⟨5, some "x"⟩, ⟨0, none⟩, ⟨0, none⟩]⟩
  have hemit : (emit 1 ["mov", "#x", "rb"]).run {} = .ok () { entries := #[entry] } := rfl
  have hlink : linkEntry .descending (Table.ofPairs [("x", 5)]) 0 entry = .ok () linked := rfl
  have hheld : ∀ i (hi : i < linked.codes.length),
      m.tape.read? (m.ip + Int64.ofNat i) = some linked.codes[i] := by decide
  exact tick_of_emitted (by decide) hemit rfl hlink rfl hheld [7]

end Assembler

end TapeMachine
