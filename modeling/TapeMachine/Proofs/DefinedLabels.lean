import TapeMachine.Proofs.Assembled
import TapeMachine.Proofs.Expansion

/-!
# Defined labels

A line that is visited defines the labels in front of it, and gives them the address of
the next word. If one of them is known already, or stands there twice, the line fails,
and no other error of a line concerns a label. So the labels of a source are those of
its visits, and a label is duplicated if and only if it occurs twice among these.
-/

namespace TapeMachine

/-! ## Errors that concern no label -/

namespace Literal

/-- An expression without a value fails as a script or as a number. -/
private theorem concernsLabel_of_wordOf {script : Script} {given : String → Option Int}
    {expr : List Char} {e : AssemblyError} (herror : wordOf script given expr = .error e) :
    e.concernsLabel = false := by
  unfold wordOf at herror
  split at herror
  · cases herror
    rfl
  · split at herror
    · split at herror
      · cases herror
      · cases herror
        rfl
    · cases herror
      rfl

/-- Replacing expressions fails because of an expression. -/
private theorem concernsLabel_of_expressionsIn {value : List Char → Except AssemblyError Word}
    (hvalue : ∀ expr e, value expr = .error e → e.concernsLabel = false)
    {pieces : List (List Char)} {e : AssemblyError}
    (herror : (expressionsIn value pieces).2 = some e) : e.concernsLabel = false := by
  induction pieces generalizing e with
  | nil => cases herror
  | cons piece pieces ih =>
    unfold expressionsIn at herror
    dsimp only at herror
    split at herror
    · exact ih herror
    · split at herror
      · exact ih herror
      · next hword =>
        cases hlater : (expressionsIn value pieces).2 with
        | some later =>
          rw [hlater] at herror
          cases herror
          exact ih hlater
        | none =>
          rw [hlater] at herror
          cases herror
          exact hvalue _ _ hword

end Literal

namespace Operand

/-- A complaint about a word is not about a label. -/
theorem concernsLabel_complaint (word : String) : (complaint word).concernsLabel = false := by
  unfold complaint
  split
  · rfl
  · rfl

/-- A term is refused for what it is. -/
theorem concernsLabel_of_term {word : String} {e : AssemblyError} (herror : term word = .error e) :
    e.concernsLabel = false := by
  unfold term at herror
  split at herror
  · cases herror
  · split at herror
    · cases herror
    · cases herror
      exact concernsLabel_complaint word
  · split at herror
    · cases herror
    · cases herror
      exact concernsLabel_complaint word

/-- An operand is refused for what it is. -/
private theorem concernsLabel_of_read {equates : Table String} {word : String} {e : AssemblyError}
    (herror : read equates word = .error e) : e.concernsLabel = false := by
  unfold read at herror
  split at herror
  case h_2 => cases herror
  case h_4 =>
    rcases Outcome.bind_eq_error_iff.mp herror with herror | ⟨t, _, herror⟩
    · exact concernsLabel_of_term herror
    · rcases Outcome.bind_eq_error_iff.mp herror with herror | ⟨u, _, herror⟩
      · unfold opposite at herror
        split at herror
        · cases herror
        · cases herror
          rfl
      · cases herror
  all_goals
    rcases Outcome.bind_eq_error_iff.mp herror with herror | ⟨t, _, herror⟩
    · exact concernsLabel_of_term herror
    · cases herror

end Operand

namespace Instruction

/-- An operation is refused because of its operands. -/
private theorem concernsLabel_of_assembleOperation {equates : Table String} {op : Opcode}
    {args : List String} {e : AssemblyError}
    (herror : assembleOperation equates op args = .error e) : e.concernsLabel = false := by
  unfold assembleOperation at herror
  by_cases hfew : args.length < op.arity
  · rw [if_pos hfew] at herror
    cases herror
    rfl
  by_cases hmany : op.arity < args.length
  · rw [if_neg hfew, if_pos hmany] at herror
    cases herror
    rfl
  rw [if_neg hfew, if_neg hmany] at herror
  rcases Outcome.bind_eq_error_iff.mp herror with herror | ⟨operands, _, herror⟩
  · obtain ⟨word, _, hword⟩ := Outcome.exists_mem_of_mapM_eq_error herror
    exact Operand.concernsLabel_of_read hword
  · dsimp only at herror
    split at herror
    · cases herror
      rfl
    · cases herror

/-- A statement is refused because of its words. -/
private theorem concernsLabel_of_assemble {equates : Table String} {words : List String}
    {e : AssemblyError} (herror : assemble equates words = .error e) :
    e.concernsLabel = false := by
  unfold assemble at herror
  split at herror
  · cases herror
  · unfold assembleData at herror
    split at herror
    · cases herror
      rfl
    · obtain ⟨word, _, hword⟩ := Outcome.exists_mem_of_mapM_eq_error herror
      exact Operand.concernsLabel_of_term hword
  · split at herror
    · cases herror
      rfl
    · exact concernsLabel_of_assembleOperation herror

/-- A line with a word on it gives at least one word of the program. -/
theorem ne_nil_of_assemble {equates : Table String} {head : String} {args : List String}
    {terms : List Term} (hok : assemble equates (head :: args) = .ok terms) : terms ≠ [] := by
  obtain ⟨name, rest, hunalias, _⟩ := unalias_cons head args
  unfold assemble at hok
  rw [hunalias] at hok
  split at hok
  case h_1 hnil => cases hnil
  case h_2 =>
    unfold assembleData at hok
    split at hok
    · cases hok
    · next hargs =>
      have hlength := (Outcome.mapM_eq_ok_iff.mp hok).length_eq
      rintro rfl
      exact hargs (by simpa using hlength)
  case h_3 =>
    split at hok
    · cases hok
    · obtain ⟨operands, _, _, _, rfl⟩ := assembleOperation_eq_ok_iff.mp hok
      exact List.cons_ne_nil _ _

end Instruction

namespace Assembler

/-- A line is taken apart into words without regard to labels. -/
private theorem concernsLabel_of_wordsOf {a : Assembler} {line : String} {e : AssemblyError}
    (herror : a.wordsOf line = .error e) : e.concernsLabel = false := by
  unfold wordsOf at herror
  rcases Outcome.bind_eq_error_iff.mp herror with herror | ⟨cs, _, herror⟩
  · unfold Literal.expressions at herror
    split at herror
    · cases herror
    · split at herror
      · next hin =>
        cases herror
        exact Literal.concernsLabel_of_expressionsIn
          (fun _ _ => Literal.concernsLabel_of_wordOf) (congrArg Prod.snd hin)
      · cases herror
  · cases herror

/-- An equate is refused without regard to labels. -/
private theorem concernsLabel_of_defineEquate {args : List String} {a b : Assembler}
    {e : AssemblyError}
    (herror : (defineEquate args).run a = .error e b) : e.concernsLabel = false := by
  unfold defineEquate at herror
  split at herror
  · next name text =>
    simp only [EStateM.run_bind, EStateM.run_get] at herror
    by_cases hknown : a.equates.contains name = true
    · rw [if_pos hknown] at herror
      cases herror
      rfl
    · rw [if_neg hknown] at herror
      cases herror
  · cases herror
    rfl

/-- An entry is refused without regard to labels. -/
private theorem concernsLabel_of_emit {number : Nat} {words : List String} {a b : Assembler}
    {e : AssemblyError} (herror : (emit number words).run a = .error e b) :
    e.concernsLabel = false := by
  unfold emit at herror
  simp only [EStateM.run_bind, EStateM.run_get] at herror
  split at herror
  · next hassemble =>
    cases herror
    exact Instruction.concernsLabel_of_assemble hassemble
  · cases herror
  · cases herror

/-! ## The labels in front of a line -/

/-- The labels that the words in front of a line define. -/
def frontLabels : List String → List String
  | [] => []
  | word :: words =>
    match labelOf? word with
    | none => []
    | some label => label :: frontLabels words

/-- Names that can all be defined as labels one after the other. -/
structure New (a : Assembler) (names : List String) : Prop where
  nodup : names.Nodup
  unknown : ∀ name ∈ names, a.labels[name]? = none

/-- No names are new. -/
theorem New.nil (a : Assembler) : New a [] := ⟨List.nodup_nil, fun _ h => absurd h List.not_mem_nil⟩

/-- An assembler with further labels at the address of the next word. -/
def withLabels (a : Assembler) (names : List String) : Assembler :=
  { a with labels := names.foldl (fun table name => table.insert name a.here) a.labels }

/-- Names that are defined have the address of the next entry. -/
theorem getElem?_withLabels (a : Assembler) (names : List String) (name : String) :
    (a.withLabels names).labels[name]? =
      if name ∈ names then some a.here else a.labels[name]? := by
  unfold withLabels
  dsimp only
  generalize a.labels = table
  induction names generalizing table with
  | nil => simp
  | cons first names ih =>
    rw [List.foldl_cons, ih, Std.ExtTreeMap.getElem?_insert]
    by_cases hrest : name ∈ names
    · simp [hrest]
    · by_cases hfirst : first = name
      · simp [hfirst]
      · simp [hrest, hfirst, Ne.symm hfirst]

/-- A list of names is new if its first one is, and the others are once it is defined. -/
theorem new_cons_iff {a : Assembler} {label : String} {names : List String} :
    New a (label :: names) ↔ a.labels[label]? = none ∧ New (a.withLabels [label]) names := by
  constructor
  · rintro ⟨hnodup, hunknown⟩
    obtain ⟨hlabel, hnodup⟩ := List.nodup_cons.mp hnodup
    refine ⟨hunknown label List.mem_cons_self, hnodup, fun name hname => ?_⟩
    have hne : name ≠ label := fun h => hlabel (h ▸ hname)
    rw [getElem?_withLabels, if_neg (by simpa using hne)]
    exact hunknown name (List.mem_cons_of_mem label hname)
  · rintro ⟨hlabel, hnodup, hunknown⟩
    have hother (name : String) (hname : name ∈ names) :
        name ≠ label ∧ a.labels[name]? = none := by
      have hnone := hunknown name hname
      rw [getElem?_withLabels] at hnone
      by_cases heq : name = label
      · simp [heq] at hnone
      · exact ⟨heq, by simpa [heq] using hnone⟩
    refine ⟨List.nodup_cons.mpr ⟨fun hmem => (hother label hmem).1 rfl, hnodup⟩, ?_⟩
    exact List.forall_mem_cons.mpr ⟨hlabel, fun name hname => (hother name hname).2⟩

/-- A label that is defined already is refused. -/
theorem run_defineLabels_of_known {word label : String} {words : List String} {a : Assembler}
    (hlabel : labelOf? word = some label) (hknown : a.labels[label]? ≠ none) :
    (defineLabels (word :: words)).run a = .error .labelDuplicate a := by
  have hcontains : a.labels.contains label = true := by simpa using hknown
  rw [defineLabels, hlabel]
  dsimp only
  have hdefine : (defineLabel label).run a = .error .labelDuplicate a := by
    unfold defineLabel
    rw [EStateM.run_bind, EStateM.run_get]
    dsimp only
    rw [if_pos hcontains]
    rfl
  rw [liftM_pass, EStateM.run_bind, hdefine]

/-- Labels that are new get the address of the next word. -/
theorem run_defineLabels_of_new {words : List String} {a : Assembler}
    (hnew : New a (frontLabels words)) :
    (defineLabels words).run a =
      .ok (words.drop (frontLabels words).length) (a.withLabels (frontLabels words)) := by
  induction words generalizing a with
  | nil => rfl
  | cons word words ih =>
    unfold frontLabels at hnew ⊢
    cases hlabel : labelOf? word with
    | none => exact run_defineLabels_of_none hlabel words a
    | some label =>
      rw [hlabel] at hnew
      obtain ⟨hunknown, hrest⟩ := new_cons_iff.mp hnew
      exact (run_defineLabels_of_some hlabel hunknown).trans (ih hrest)

/-- Labels that are not all new fail, and so does their line. -/
theorem run_defineLabels_of_not_new {words : List String} {a : Assembler}
    (hold : ¬ New a (frontLabels words)) :
    ∃ b, (defineLabels words).run a = .error .labelDuplicate b := by
  induction words generalizing a with
  | nil => exact absurd (New.nil a) hold
  | cons word words ih =>
    unfold frontLabels at hold
    cases hlabel : labelOf? word with
    | none =>
      rw [hlabel] at hold
      exact absurd (New.nil a) hold
    | some label =>
      rw [hlabel] at hold
      by_cases hunknown : a.labels[label]? = none
      · obtain ⟨b, hb⟩ := ih fun hrest => hold (new_cons_iff.mpr ⟨hunknown, hrest⟩)
        exact ⟨b, (run_defineLabels_of_some hlabel hunknown).trans hb⟩
      · exact ⟨a, run_defineLabels_of_known hlabel hunknown⟩

/-! ## What a visit does -/

namespace Visit

/-- The assembler once it has noted the number of the line. -/
def start (v : Visit) : Assembler := v.before.numbered v.number

/-- The words of the line, or none if they cannot be read. -/
def words (v : Visit) : List String :=
  match v.start.wordsOf v.line with
  | .ok words => words
  | .error _ => []

/-- The labels in front of the line. -/
def labels (v : Visit) : List String := frontLabels v.words

/-- The instruction, data line or call that follows the labels. An equate is none of these. -/
def statement (v : Visit) : List String :=
  if v.words.head? = some ".equ" then []
  else (v.words.drop v.labels.length).map v.start.substitute

/-- What is known of a visit that ends in a state without failing. -/
structure Opens (v : Visit) (b : Assembler) : Prop where
  new : New v.before v.labels
  labels : ∀ name, b.labels[name]? =
    if name ∈ v.labels then some v.before.here else v.before.labels[name]?
  entries : v.before.entries.toList <+: b.entries.toList
  /-- What is not the call of a macro is assembled. -/
  statement : ∀ head args, v.statement = head :: args → v.before.macros[head]? = none →
    ∃ terms, Instruction.assemble v.start.equates v.statement = .ok terms ∧ terms ≠ [] ∧
      b.entries = v.before.entries.push ⟨v.number, v.before.here, v.statement, terms⟩

end Visit

/-- A line is opened word by word, with its number noted. -/
theorem run_opening (number : Nat) (line : String) (a : Assembler) :
    (opening number line).run a =
      match (a.numbered number).wordsOf line with
      | .ok words => (openWords number words).run (a.numbered number)
      | .error e => .error e (a.numbered number) := by
  unfold opening
  rw [EStateM.run_bind, run_setLine]
  dsimp only
  rw [EStateM.run_bind, Course.run_readWords]
  cases (a.numbered number).wordsOf line with
  | ok words => rfl
  | error e => rfl

/-- A line that does not begin with an equate has labels in front. -/
theorem run_openWords_of_ne {words : List String} (hequate : words.head? ≠ some ".equ")
    (number : Nat) (a : Assembler) :
    (openWords number words).run a = (defineLabels words >>= openStatement number).run a := by
  unfold openWords
  split
  · rfl
  · exact absurd rfl hequate
  · rfl

/-- A line of unequated words that begins with the name of a macro calls it. -/
theorem run_opening_of_name {number : Nat} {line name : String} {args : List String}
    {a : Assembler} {m : Macro} (hwords : (a.numbered number).wordsOf line = .ok (name :: args))
    (hequate : name ≠ ".equ") (hlabel : labelOf? name = none)
    (hunbound : ∀ word ∈ name :: args, (a.numbered number).equates[word]? = none)
    (hcallee : a.macros[name]? = some m) :
    (opening number line).run a = .ok (some ⟨m, name, args⟩) (a.numbered number) := by
  have hfirst : (name :: args).head? ≠ some ".equ" := fun h => hequate (Option.some.inj h)
  rw [run_opening, hwords]
  dsimp only
  rw [run_openWords_of_ne hfirst, EStateM.run_bind, run_defineLabels_of_none hlabel]
  dsimp only
  unfold openStatement
  rw [EStateM.run_bind, EStateM.run_get]
  dsimp only
  rw [map_substitute_of_none hunbound]
  dsimp only
  rw [show (a.numbered number).macros[name]? = some m from hcallee]
  rfl

/-- An equate defines no labels. -/
theorem frontLabels_of_equate {words : List String} (hequate : words.head? = some ".equ") :
    frontLabels words = [] := by
  obtain ⟨args, rfl⟩ := List.head?_eq_some_iff.mp hequate
  rfl

/-- What follows the labels fails for another reason than a label. -/
private theorem concernsLabel_of_openStatement {number : Nat} {rest : List String} {a b : Assembler}
    {e : AssemblyError} (herror : (openStatement number rest).run a = .error e b) :
    e.concernsLabel = false := by
  unfold openStatement at herror
  rw [EStateM.run_bind, EStateM.run_get] at herror
  dsimp only at herror
  cases hstatement : rest.map a.substitute with
  | nil =>
    rw [hstatement] at herror
    cases herror
  | cons head args =>
    rw [hstatement] at herror
    dsimp only at herror
    cases hcallee : a.macros[head]? with
    | some m =>
      rw [hcallee] at herror
      cases herror
    | none =>
      rw [hcallee] at herror
      dsimp only at herror
      rw [EStateM.run_bind] at herror
      cases hemit : (emit number (head :: args)).run a with
      | ok x c =>
        rw [hemit] at herror
        cases herror
      | error e' c =>
        rw [hemit] at herror
        cases herror
        exact concernsLabel_of_emit hemit

/-- What becomes of the words behind the labels of a line: there are none, they call a macro, or
they add an entry. -/
inductive Stated (number : Nat) (words : List String) (a : Assembler) :
    Option Call → Assembler → Prop where
  | empty (hwords : words = []) : Stated number words a none a
  | call {head : String} {args : List String} {m : Macro} (hwords : words = head :: args)
    (hcallee : a.macros[head]? = some m) : Stated number words a (some ⟨m, head, args⟩) a
  | entry {head : String} {args : List String} {terms : List Term} (hwords : words = head :: args)
    (hcallee : a.macros[head]? = none) (hterms : Instruction.assemble a.equates words = .ok terms)
    (hne : terms ≠ []) :
    Stated number words a none { a with entries := a.entries.push ⟨number, a.here, words, terms⟩ }

/-- What follows the labels is an equate, a call or an entry. -/
theorem stated_of_openStatement {number : Nat} {rest : List String} {a b : Assembler}
    {c : Option Call} (hok : (openStatement number rest).run a = .ok c b) :
    Stated number (rest.map a.substitute) a c b := by
  unfold openStatement at hok
  rw [EStateM.run_bind, EStateM.run_get] at hok
  dsimp only at hok
  cases hstatement : rest.map a.substitute with
  | nil =>
    rw [hstatement] at hok
    cases hok
    exact .empty rfl
  | cons head args =>
    rw [hstatement] at hok
    dsimp only at hok
    cases hcallee : a.macros[head]? with
    | some m =>
      rw [hcallee] at hok
      cases hok
      exact .call rfl hcallee
    | none =>
      rw [hcallee] at hok
      dsimp only at hok
      rw [EStateM.run_bind] at hok
      cases hemit : (emit number (head :: args)).run a with
      | error e d =>
        rw [hemit] at hok
        cases hok
      | ok x d =>
        rw [hemit] at hok
        cases hok
        obtain ⟨terms, hterms, rfl⟩ := run_emit hemit
        have hne := Instruction.ne_nil_of_assemble hterms
        rw [if_neg hne]
        exact .entry rfl hcallee hterms hne

/-- What follows the labels of a line adds an entry if it is neither empty nor a call. -/
theorem openStatement_eq_ok {number : Nat} {rest : List String} {a b : Assembler}
    {c : Option Call} (hok : (openStatement number rest).run a = .ok c b) :
    b.labels = a.labels ∧ a.entries.toList <+: b.entries.toList ∧
      ∀ head args, rest.map a.substitute = head :: args → a.macros[head]? = none →
        ∃ terms, Instruction.assemble a.equates (head :: args) = .ok terms ∧ terms ≠ [] ∧
          b.entries = a.entries.push ⟨number, a.here, head :: args, terms⟩ := by
  cases stated_of_openStatement hok with
  | empty hwords =>
    refine ⟨rfl, List.prefix_rfl, fun head args h => ?_⟩
    rw [hwords] at h
    cases h
  | call hwords hcallee =>
    refine ⟨rfl, List.prefix_rfl, fun head args h hnone => ?_⟩
    rw [hwords] at h
    cases h
    rw [hcallee] at hnone
    cases hnone
  | @entry _ _ terms _ _ hterms hne =>
    refine ⟨rfl, ?_, fun head args h _ => ⟨terms, h ▸ hterms, hne, h ▸ rfl⟩⟩
    rw [Array.toList_push]
    exact List.prefix_append _ _

/-- An equate is defined by a name and a text, if the name is not equated. -/
theorem run_defineEquate (args : List String) (a : Assembler) :
    (∃ e, (defineEquate args).run a = .error e a) ∨
      ∃ name text, args = [name, text] ∧ a.equates[name]? = none ∧
        (defineEquate args).run a = .ok () { a with equates := a.equates.insert name text } := by
  unfold defineEquate
  split
  · next name text =>
    rw [EStateM.run_bind, EStateM.run_get]
    dsimp only
    by_cases hknown : a.equates.contains name = true
    · rw [if_pos hknown]
      exact .inl ⟨_, rfl⟩
    · rw [if_neg hknown]
      exact .inr ⟨name, text, rfl, by simpa using hknown, rfl⟩
  · exact .inl ⟨_, rfl⟩

/-- An equate changes neither the program nor the macros. -/
theorem of_defineEquate {args : List String} {a b : Assembler} {x : Unit}
    (hok : (defineEquate args).run a = .ok x b) : SameProgram a b ∧ b.macros = a.macros := by
  rcases run_defineEquate args a with ⟨e, herror⟩ | ⟨name, text, _, _, hrun⟩
  · rw [herror] at hok
    cases hok
  · rw [hrun] at hok
    cases hok
    exact ⟨⟨rfl, rfl⟩, rfl⟩

namespace Visit

variable {v : Visit}

/-- A visited line is opened word by word. -/
theorem opened_eq (v : Visit) :
    v.opened =
      match v.start.wordsOf v.line with
      | .ok words => (openWords v.number words).run v.start
      | .error e => .error e v.start :=
  run_opening v.number v.line v.before

/-- The words of a visited line. -/
theorem words_of_ok {words : List String} (hwords : v.start.wordsOf v.line = .ok words) :
    v.words = words := by
  rw [Visit.words, hwords]

/-- The labels of a visited line are those in front of its words. -/
theorem labels_of_ok {words : List String} (hwords : v.start.wordsOf v.line = .ok words) :
    v.labels = frontLabels words := by
  rw [Visit.labels, words_of_ok hwords]

/-- A line that cannot be taken apart defines no labels. -/
private theorem labels_of_error {e : AssemblyError} (herror : v.start.wordsOf v.line = .error e) :
    v.labels = [] := by
  rw [Visit.labels, Visit.words, herror]
  rfl

/-- A line whose labels are not all new fails. -/
theorem opened_of_not_new (hold : ¬ New v.before v.labels) :
    ∃ b, v.opened = .error .labelDuplicate b := by
  cases hwords : v.start.wordsOf v.line with
  | error e =>
    rw [labels_of_error hwords] at hold
    exact absurd (New.nil _) hold
  | ok words =>
    rw [labels_of_ok hwords] at hold
    have hequate : words.head? ≠ some ".equ" := by
      intro hequate
      rw [frontLabels_of_equate hequate] at hold
      exact hold (New.nil _)
    obtain ⟨b, hb⟩ := @run_defineLabels_of_not_new words v.start fun hnew =>
      hold ⟨hnew.nodup, hnew.unknown⟩
    refine ⟨b, ?_⟩
    rw [opened_eq, hwords]
    dsimp only
    rw [run_openWords_of_ne hequate, EStateM.run_bind, hb]

/-- An equate changes nothing else. -/
private theorem opens_of_equate {args : List String} {x : Unit} {b : Assembler}
    (hwords : v.start.wordsOf v.line = .ok (".equ" :: args))
    (hdefine : (defineEquate args).run v.start = .ok x b) : v.Opens b := by
  obtain ⟨⟨hlabels, hentries⟩, _⟩ := of_defineEquate hdefine
  have hnone : v.labels = [] := labels_of_ok hwords
  have hstatement : v.statement = [] := by
    rw [Visit.statement, words_of_ok hwords, if_pos List.head?_cons]
  refine ⟨hnone ▸ New.nil _, ?_, ?_, ?_⟩
  · intro name
    rw [hlabels, hnone]
    rfl
  · rw [hentries]
    exact List.prefix_rfl
  · intro head rest hcons
    rw [hstatement] at hcons
    cases hcons

/-- Behind labels that are new, what follows them is read. -/
private theorem opens_of_openStatement {words : List String} {c : Option Call} {b : Assembler}
    (hwords : v.start.wordsOf v.line = .ok words) (hequate : words.head? ≠ some ".equ")
    (hnew : New v.before v.labels)
    (hrest : (openStatement v.number (words.drop v.labels.length)).run
      (v.start.withLabels v.labels) = .ok c b) : v.Opens b := by
  obtain ⟨hlabels, hentries, hemitted⟩ := openStatement_eq_ok hrest
  have hstatement : v.statement = (words.drop v.labels.length).map v.start.substitute := by
    rw [Visit.statement, words_of_ok hwords, if_neg hequate]
  refine ⟨hnew, ?_, hentries, ?_⟩
  · intro name
    rw [hlabels, getElem?_withLabels]
    rfl
  · intro head args hcons hnone
    rw [hcons]
    exact hemitted head args (hstatement.symm.trans hcons) hnone

/-- What a line does that does not fail, and how it fails if its labels are new. -/
theorem opened_of_new (hnew : New v.before v.labels) :
    (∀ c b, v.opened = .ok c b → v.Opens b) ∧
      ∀ e b, v.opened = .error e b → e.concernsLabel = false := by
  rw [opened_eq]
  cases hwords : v.start.wordsOf v.line with
  | error e =>
    dsimp only
    refine ⟨fun _ _ hok => (by cases hok), ?_⟩
    rintro _ _ ⟨rfl, rfl⟩
    exact concernsLabel_of_wordsOf hwords
  | ok words =>
    dsimp only
    by_cases hequate : words.head? = some ".equ"
    · obtain ⟨args, rfl⟩ := List.head?_eq_some_iff.mp hequate
      rw [openWords, EStateM.run_bind]
      cases hdefine : (defineEquate args).run v.start with
      | ok x d =>
        refine ⟨?_, fun _ _ herror => (by cases herror)⟩
        rintro _ _ ⟨rfl, rfl⟩
        exact opens_of_equate hwords hdefine
      | error e d =>
        refine ⟨fun _ _ hok => (by cases hok), ?_⟩
        rintro _ _ ⟨rfl, rfl⟩
        exact concernsLabel_of_defineEquate hdefine
    · have hstart : New v.start (frontLabels words) :=
        labels_of_ok hwords ▸ ⟨hnew.nodup, hnew.unknown⟩
      rw [run_openWords_of_ne hequate, EStateM.run_bind, run_defineLabels_of_new hstart,
        ← labels_of_ok hwords]
      exact ⟨fun _ _ => opens_of_openStatement hwords hequate hnew,
        fun _ _ => concernsLabel_of_openStatement⟩

/-- A line that is opened defines its labels. -/
theorem opens_of_opened {c : Option Call} {b : Assembler} (hopened : v.opened = .ok c b) :
    v.Opens b := by
  by_cases hnew : New v.before v.labels
  · exact (opened_of_new hnew).1 c b hopened
  · obtain ⟨d, herror⟩ := opened_of_not_new hnew
    rw [hopened] at herror
    cases herror

/-- Behind the labels of a line stands its statement, unless it is an equate. -/
theorem stated_of_opened {c : Option Call} {b : Assembler} (hopened : v.opened = .ok c b) :
    (v.statement = [] ∧ c = none ∧ b.entries = v.before.entries ∧ b.macros = v.before.macros) ∨
      Stated v.number v.statement (v.start.withLabels v.labels) c b := by
  have hnew := (opens_of_opened hopened).new
  rw [opened_eq] at hopened
  cases hwords : v.start.wordsOf v.line with
  | error e =>
    rw [hwords] at hopened
    cases hopened
  | ok words =>
    rw [hwords] at hopened
    dsimp only at hopened
    by_cases hequate : words.head? = some ".equ"
    · have hstatement : v.statement = [] := by
        rw [Visit.statement, words_of_ok hwords, if_pos hequate]
      obtain ⟨args, rfl⟩ := List.head?_eq_some_iff.mp hequate
      rw [openWords, EStateM.run_bind] at hopened
      cases hdefine : (defineEquate args).run v.start with
      | error e d =>
        rw [hdefine] at hopened
        cases hopened
      | ok x d =>
        rw [hdefine] at hopened
        cases hopened
        obtain ⟨hsame, hmacros⟩ := of_defineEquate hdefine
        exact .inl ⟨hstatement, rfl, hsame.entries, hmacros⟩
    · have hstatement : v.statement = (words.drop v.labels.length).map v.start.substitute := by
        rw [Visit.statement, words_of_ok hwords, if_neg hequate]
      have hstart : New v.start (frontLabels words) :=
        labels_of_ok hwords ▸ ⟨hnew.nodup, hnew.unknown⟩
      rw [run_openWords_of_ne hequate, EStateM.run_bind, run_defineLabels_of_new hstart,
        ← labels_of_ok hwords] at hopened
      rw [hstatement]
      exact .inr (stated_of_openStatement hopened)

end Visit

/-! ## From visit to visit -/

/-- Names are new one after the other if the first ones are, and the others are behind these. -/
private theorem new_append_iff {a b : Assembler} {v : Visit} (hsame : SameProgram a v.before)
    (hv : v.Opens b) (names : List String) : New a (v.labels ++ names) ↔ New b names := by
  have hlabels (name : String) : b.labels[name]? =
      if name ∈ v.labels then some v.before.here else a.labels[name]? := by
    rw [hv.labels, hsame.labels]
  constructor
  · rintro ⟨hnodup, hunknown⟩
    obtain ⟨_, hrest, hdisjoint⟩ := List.nodup_append.mp hnodup
    refine ⟨hrest, fun name hname => ?_⟩
    rw [hlabels, if_neg fun hmem => hdisjoint name hmem name hname rfl]
    exact hunknown name (List.mem_append_right _ hname)
  · rintro ⟨hnodup, hunknown⟩
    have hother (name : String) (hname : name ∈ names) :
        name ∉ v.labels ∧ a.labels[name]? = none := by
      have hnone := hunknown name hname
      rw [hlabels] at hnone
      by_cases hmem : name ∈ v.labels
      · simp [hmem] at hnone
      · exact ⟨hmem, by simpa [hmem] using hnone⟩
    refine ⟨List.nodup_append.mpr ⟨hv.new.nodup, hnodup, ?_⟩, ?_⟩
    · rintro name hmem _ hname rfl
      exact (hother name hname).1 hmem
    · intro name hname
      rcases List.mem_append.mp hname with hname | hname
      · rw [← hsame.labels]
        exact hv.new.unknown name hname
      · exact (hother name hname).2

namespace Chronicle

variable {α : Type} {a b : Assembler} {vs : List Visit} {x : α}
  {outcome : EStateM.Result AssemblyError Assembler α}

/-- The reading of lines fails on a duplicated label if one of their labels is not new. -/
theorem duplicate_iff (h : Chronicle a vs outcome) :
    (∃ e b, outcome = .error e b ∧ e.root = .labelDuplicate) ↔
      ¬ New a (vs.flatMap Visit.labels) := by
  induction h with
  | done _ => simp [New.nil]
  | fail hother =>
    refine ⟨?_, fun hold => absurd (New.nil _) hold⟩
    rintro ⟨_, _, ⟨rfl, rfl⟩, hroot⟩
    simp [AssemblyError.concernsLabel, hroot] at hother
  | line hsame hopened _ ih =>
    rw [List.flatMap_cons, new_append_iff hsame (Visit.opens_of_opened hopened)]
    exact ih
  | @stop a b b' v e e' hsame hopened hroot =>
    have hbefore : New a v.labels ↔ New v.before v.labels :=
      ⟨fun h => ⟨h.nodup, hsame.labels ▸ h.unknown⟩, fun h => ⟨h.nodup, hsame.labels ▸ h.unknown⟩⟩
    rw [List.flatMap_singleton, hbefore]
    constructor
    · rintro ⟨_, _, ⟨rfl, rfl⟩, hduplicate⟩ hnew
      have hother := (Visit.opened_of_new hnew).2 _ _ hopened
      simp [AssemblyError.concernsLabel, ← hroot, hduplicate] at hother
    · intro hold
      obtain ⟨c, herror⟩ := Visit.opened_of_not_new hold
      rw [hopened] at herror
      cases herror
      exact ⟨e', b', rfl, hroot⟩

/-- No other failure of a line concerns a label. -/
theorem root_of_error {e : AssemblyError}
    (h : Chronicle a vs (.error e b : EStateM.Result AssemblyError Assembler α)) :
    e.root = .labelDuplicate ∨ e.concernsLabel = false := by
  generalize hx : EStateM.Result.error e b = first at h
  induction h with
  | done _ => cases hx
  | fail hother =>
    cases hx
    exact .inr hother
  | line _ _ _ ih => exact ih hx
  | @stop _ _ _ v _ _ _ hopened hroot =>
    cases hx
    by_cases hnew : New v.before v.labels
    · exact .inr ((AssemblyError.concernsLabel_congr hroot).trans
        ((Visit.opened_of_new hnew).2 _ _ hopened))
    · obtain ⟨c, herror⟩ := Visit.opened_of_not_new hnew
      rw [hopened] at herror
      cases herror
      exact .inl hroot

/-- The labels of lines that are read are those in front of them. -/
theorem labels_iff (h : Chronicle a vs (.ok x b)) (name : String) (address : Word) :
    b.labels[name]? = some address ↔
      a.labels[name]? = some address ∨
        ∃ v ∈ vs, name ∈ v.labels ∧ v.before.here = address := by
  generalize hx : EStateM.Result.ok x b = outcome at h
  induction h with
  | done hsame =>
    cases hx
    simp [hsame.labels]
  | fail _ => cases hx
  | stop _ _ _ => cases hx
  | @line a c v _ vs _ hsame hopened _ ih =>
    have hv := Visit.opens_of_opened hopened
    rw [ih hx, hv.labels, hsame.labels]
    by_cases hmem : name ∈ v.labels
    · have hnone : a.labels[name]? = none := hsame.labels ▸ hv.new.unknown name hmem
      simp [hmem, hnone]
    · simp [hmem]

/-- What is in the listing stays there in front. -/
theorem entries_prefix (h : Chronicle a vs (.ok x b)) : a.entries.toList <+: b.entries.toList := by
  generalize hx : EStateM.Result.ok x b = outcome at h
  induction h with
  | done hsame =>
    cases hx
    exact hsame.entries ▸ List.prefix_rfl
  | fail _ => cases hx
  | stop _ _ _ => cases hx
  | line hsame hopened _ ih =>
    rw [← hsame.entries]
    exact (Visit.opens_of_opened hopened).entries.trans (ih hx)

/-- If reading does not fail, no visit does, and what a visit adds to the listing stays. -/
theorem opens_of_mem (h : Chronicle a vs (.ok x b)) {v : Visit} (hv : v ∈ vs) :
    ∃ c, v.Opens c ∧ c.entries.toList <+: b.entries.toList := by
  generalize hx : EStateM.Result.ok x b = outcome at h
  induction h with
  | done _ => cases hv
  | fail _ => cases hv
  | stop _ _ _ => cases hx
  | line _ hopened hrest ih =>
    rcases List.mem_cons.mp hv with rfl | hv
    · exact ⟨_, Visit.opens_of_opened hopened, entries_prefix (hx ▸ hrest)⟩
    · exact ih hv hx

end Chronicle

/-! ## Sources -/

/-- The lines of a source are read in the order of their visits. -/
theorem chronicle_visits (source : Source) (a : Assembler) :
    Chronicle a.fresh (visits source a) ((readLines {} source.lines).run a.fresh) :=
  chronicled_readLines {} source.lines a.fresh

/-- Linking is the only part of the end of a source that fails on a label. -/
theorem link_of_finish {order : LinkOrder} {source : Source} {p : Position} {a b : Assembler}
    {e : AssemblyError} (herror : (finish order source p).run a = .error e b)
    (hlabel : e.concernsLabel = true) : (link order).run a = .error e b := by
  rcases run_finish_cases source p a with hlink | ⟨e', hcause, hother⟩
  · rwa [← hlink]
  · rw [hother] at herror
    cases herror
    rcases hcause with rfl | ⟨_, rfl⟩ | rfl <;> cases hlabel

/-- The end of a source fails for a label only if it was never defined. -/
private theorem finish_error {order : LinkOrder} {source : Source} {p : Position} {a b : Assembler}
    {e : AssemblyError} (herror : (finish order source p).run a = .error e b) :
    e.concernsLabel = false ∨ ∃ label, e = .labelMissing label ∧ a.labels[label]? = none := by
  cases hlabel : e.concernsLabel with
  | false => exact .inl rfl
  | true =>
    obtain ⟨label, _, _, _, _, _, _, he, _, _, _, hnone, _⟩ :=
      link_eq_error (link_of_finish herror hlabel)
    exact .inr ⟨label, he, hnone⟩

/-- To begin with, names are new if none is there twice. -/
private theorem new_fresh_iff {a : Assembler} {names : List String} :
    New a.fresh names ↔ names.Nodup :=
  ⟨New.nodup, fun hnodup => ⟨hnodup, fun _ _ => Std.ExtTreeMap.getElem?_empty⟩⟩

/-- A source fails on a duplicated label if and only if a label stands twice in front of the
lines that are read. -/
theorem parse_duplicate_iff (order : LinkOrder) (source : Source) (a : Assembler) :
    (∃ e b, (parse order source).run a = .error e b ∧ e.root = .labelDuplicate) ↔
      ¬ ((visits source a).flatMap Visit.labels).Nodup := by
  have hiff := (chronicle_visits source a).duplicate_iff
  rw [new_fresh_iff] at hiff
  rw [← hiff, Course.run_parse_eq]
  cases (readLines {} source.lines).run a.fresh with
  | error e b =>
    dsimp only
    constructor
    · rintro ⟨_, _, ⟨rfl, rfl⟩, hroot⟩
      exact ⟨_, _, rfl, hroot⟩
    · rintro ⟨_, _, ⟨rfl, rfl⟩, hroot⟩
      exact ⟨_, _, rfl, hroot⟩
  | ok p c =>
    dsimp only
    constructor
    · rintro ⟨e, b, herror, hroot⟩
      rw [Course.run_within] at herror
      cases hfinish : (finish order source p).run c with
      | ok l d =>
        rw [hfinish] at herror
        cases herror
      | error e' d =>
        rw [hfinish] at herror
        cases herror
        have hduplicate : e'.root = .labelDuplicate := hroot
        rcases finish_error hfinish with hother | ⟨label, rfl, _⟩
        · simp [AssemblyError.concernsLabel, hduplicate] at hother
        · cases hduplicate
    · rintro ⟨_, _, herror, _⟩
      cases herror

/-- A missing label is found by linking, once all lines are read. The entries in front of the
one that refers to it can be linked. -/
theorem link_of_parse_missing {order : LinkOrder} {source : Source} {a b : Assembler}
    {e : AssemblyError} {label : String} (hparse : (parse order source).run a = .error e b)
    (hmissing : e.root = .labelMissing label) :
    ∃ p c, (readLines {} source.lines).run a.fresh = .ok p c ∧
      e = .atLine p.number p.line (.labelMissing label) ∧ c.labels[label]? = none ∧
      ∃ front d rest, c.entries.toList = front ++ d :: rest ∧ (∃ i, (i, label) ∈ d.links) ∧
        ∀ f ∈ front, ∃ linked, Entry.Linked c.labels f linked := by
  have hchronicle := chronicle_visits source a
  rw [Course.run_parse_eq] at hparse
  cases hlines : (readLines {} source.lines).run a.fresh with
  | error e' c =>
    rw [hlines] at hparse hchronicle
    cases hparse
    rcases hchronicle.root_of_error with hduplicate | hother
    · rw [hmissing] at hduplicate
      cases hduplicate
    · simp [AssemblyError.concernsLabel, hmissing] at hother
  | ok p c =>
    rw [hlines] at hparse
    dsimp only at hparse
    rw [Course.run_within] at hparse
    cases hfinish : (finish order source p).run c with
    | ok l d =>
      rw [hfinish] at hparse
      cases hparse
    | error e' d =>
      rw [hfinish] at hparse
      cases hparse
      have hroot : e'.root = .labelMissing label := hmissing
      have hlink := link_of_finish hfinish (by simp [AssemblyError.concernsLabel, hroot])
      obtain ⟨label', front, d, rest, linked, _, hentries, rfl, _, hfront, _, hnone, hmem⟩ :=
        link_eq_error hlink
      obtain rfl : label' = label := AssemblyError.labelMissing.inj hroot
      refine ⟨p, c, rfl, rfl, hnone, front, d, rest, hentries, hmem, fun f hf => ?_⟩
      obtain ⟨g, _, hg⟩ := Outcome.exists_mem_of_forall₂ hfront hf
      exact ⟨g, hg⟩

/-- A label that is missing stands in front of no line. -/
theorem not_mem_of_parse_missing {order : LinkOrder} {source : Source} {a b : Assembler}
    {e : AssemblyError} {label : String} (hparse : (parse order source).run a = .error e b)
    (hroot : e.root = .labelMissing label) :
    label ∉ (visits source a).flatMap Visit.labels := by
  obtain ⟨p, c, hlines, _, hnone, _⟩ := link_of_parse_missing hparse hroot
  have hchronicle := chronicle_visits source a
  rw [hlines] at hchronicle
  intro hmem
  obtain ⟨v, hv, hv'⟩ := List.mem_flatMap.mp hmem
  have hsome := (hchronicle.labels_iff label v.before.here).mpr (.inr ⟨v, hv, hv', rfl⟩)
  rw [hnone] at hsome
  cases hsome

/-- The labels of a source are those in front of the lines that are read, each with the address
of the next word at that moment. -/
theorem labels_iff_of_parse {order : LinkOrder} {source : Source} {a b : Assembler} {l : Listing}
    (hparse : (parse order source).run a = .ok l b) (name : String) (address : Word) :
    b.labels[name]? = some address ↔
      ∃ v ∈ visits source a, name ∈ v.labels ∧ v.before.here = address := by
  obtain ⟨p, c, hlines, hlink⟩ := Course.parse_eq_ok hparse
  obtain ⟨_, rfl⟩ := link_eq_ok_iff.mp hlink
  have hchronicle := chronicle_visits source a
  rw [hlines] at hchronicle
  have hnone : a.fresh.labels[name]? = none := Std.ExtTreeMap.getElem?_empty
  have hiff := hchronicle.labels_iff name address
  rw [hnone] at hiff
  simpa using hiff

end Assembler

end TapeMachine
