import TapeMachine.Proofs.MacroCalls

/-!
# The scope of equates

A line notes its number and may define an equate. Whatever the lines of a macro define,
and the parameters of the macro, are forgotten at the end of its call, whether the call
succeeds or fails. So the equates of a source are those that it starts with, the number
of the line that was read last, and the definitions outside of macros, of which there is
one for a name at most.
-/

namespace TapeMachine.Assembler

open Course (bound unbound)

variable {α β : Type}

/-! ## Lines -/

/-- A computation that succeeds ends in the state that it gives. -/
theorem endOf_of_ok {p : Pass α} {a b : Assembler} {x : α} (hrun : p.run a = .ok x b) :
    endOf p a = b := by
  rw [endOf, hrun]

/-- A computation that fails ends in the state in which it fails. -/
theorem endOf_of_error {p : Pass α} {a b : Assembler} {e : AssemblyError}
    (hrun : p.run a = .error e b) : endOf p a = b := by
  rw [endOf, hrun]

/-- The end of two parts of the reading. -/
theorem endOf_bind (p : Pass α) (f : α → Pass β) (a : Assembler) :
    endOf (p >>= f) a =
      match p.run a with
      | .ok x b => endOf (f x) b
      | .error _ b => b := by
  unfold endOf
  rw [EStateM.run_bind]
  cases p.run a with
  | ok x b => rfl
  | error e b => rfl

/-- A call forgets the equates that it binds and those that its lines define. -/
theorem equates_callWith (read : Nat → String → Pass Unit) (m : Macro) (name : String)
    (args : List String) (a : Assembler) :
    (endOf (callWith read m name args) a).equates = a.equates := by
  unfold callWith
  by_cases hlength : args.length ≠ m.params.length
  · rw [if_pos hlength]
    rfl
  · rw [if_neg hlength]
    change (endOf (withEquates _ _) a).equates = a.equates
    rw [Course.endOf_withEquates]
    rfl

/-- If calls leave the equates alone, a line changes them only where it is opened. -/
theorem equates_readLineWith {call : Macro → String → List String → Pass Unit}
    (hcall : ∀ m name args a, (endOf (call m name args) a).equates = a.equates) (number : Nat)
    (line : String) (a : Assembler) :
    (endOf (readLineWith call number line) a).equates =
      (endOf (opening number line) a).equates := by
  rw [readLineWith_eq_bind, endOf_bind]
  cases hopen : (opening number line).run a with
  | error e b => rw [endOf_of_error hopen]
  | ok c b =>
    rw [endOf_of_ok hopen]
    cases c with
    | none => rfl
    | some c => exact hcall c.callee c.name c.args b

/-- The equates of a line are known before the macro on it is called. -/
theorem equates_readLine (depth number : Nat) (line : String) (a : Assembler) :
    (endOf (readLine depth number line) a).equates = (endOf (opening number line) a).equates := by
  cases depth with
  | zero => exact equates_readLineWith (equates_callWith _) number line a
  | succ depth => exact equates_readLineWith (equates_callWith _) number line a

/-- The labels of a line change no equate. -/
theorem equates_defineLabels (words : List String) (a : Assembler) :
    (endOf (defineLabels words) a).equates = a.equates := by
  induction words generalizing a with
  | nil => rfl
  | cons word words ih =>
    cases hlabel : labelOf? word with
    | none => rw [endOf_of_ok (run_defineLabels_of_none hlabel words a)]
    | some label =>
      by_cases hnew : a.labels[label]? = none
      · rw [endOf, run_defineLabels_of_some hlabel hnew]
        exact ih { a with labels := a.labels.insert label a.here }
      · rw [endOf_of_error (run_defineLabels_of_known hlabel hnew)]

/-- Neither does what follows the labels, up to the call of a macro. -/
theorem equates_openStatement (number : Nat) (rest : List String) (a : Assembler) :
    (endOf (openStatement number rest) a).equates = a.equates := by
  unfold openStatement
  rw [endOf_bind, EStateM.run_get]
  dsimp only
  cases rest.map a.substitute with
  | nil => rfl
  | cons head args =>
    dsimp only
    cases a.macros[head]? with
    | some m => rfl
    | none =>
      dsimp only
      rw [endOf_bind]
      cases hassemble : Instruction.assemble a.equates (head :: args) with
      | error e => rw [run_emit_of_error hassemble]
      | ok terms => rw [run_emit_of_ok hassemble (Instruction.ne_nil_of_assemble hassemble)]; rfl

/-! ## Definitions -/

/-- The equate that a line defines: the line is accepted, and its words are the directive, a
name and a text. -/
def Visit.definition? (v : Visit) : Option (String × String) :=
  match v.opened with
  | .error _ _ => none
  | .ok _ _ =>
    match v.words with
    | [".equ", name, text] => some (name, text)
    | _ => none

/-- A table of equates behind a line. -/
def Visit.note (table : Table String) (v : Visit) : Table String :=
  let noted := table.insert lineName (Nat.repr v.number)
  match v.definition? with
  | none => noted
  | some d => noted.insert d.1 d.2

namespace Visit

variable {v : Visit}

/-- A line that is no equate defines none. -/
theorem definition?_of_ne (hequate : v.words.head? ≠ some ".equ") : v.definition? = none := by
  unfold definition?
  cases v.opened with
  | error e b => rfl
  | ok c b =>
    dsimp only
    split
    · next hwords => exact absurd (congrArg List.head? hwords) hequate
    · rfl

/-- A line that fails defines no equate. -/
theorem definition?_of_error {e : AssemblyError} {b : Assembler}
    (hopened : v.opened = .error e b) : v.definition? = none := by
  rw [definition?, hopened]

/-- A line with the directive for equates is accepted if it has a name and a text, and the name
is not equated. -/
theorem opened_of_equate {args : List String}
    (hwords : v.start.wordsOf v.line = .ok (".equ" :: args)) :
    (∃ e, v.opened = .error e v.start) ∨
      ∃ name text, args = [name, text] ∧ v.start.equates[name]? = none ∧
        v.opened = .ok none { v.start with equates := v.start.equates.insert name text } := by
  have hopened : v.opened = (defineEquate args >>= fun _ => pure none).run v.start := by
    rw [opened_eq, hwords]
    rfl
  rw [hopened, EStateM.run_bind]
  rcases run_defineEquate args v.start with ⟨e, herror⟩ | ⟨name, text, hargs, hnone, hok⟩
  · rw [herror]
    exact .inl ⟨e, rfl⟩
  · rw [hok]
    exact .inr ⟨name, text, hargs, hnone, rfl⟩

/-- What a line defines was not equated before it. -/
private theorem not_equated_of_definition? {d : String × String} (hd : v.definition? = some d) :
    v.start.equates[d.1]? = none := by
  have hequate : v.words.head? = some ".equ" := by
    by_contra hne
    rw [definition?_of_ne hne] at hd
    cases hd
  cases hwords : v.start.wordsOf v.line with
  | error e =>
    rw [Visit.words, hwords] at hequate
    cases hequate
  | ok words =>
    rw [words_of_ok hwords] at hequate
    obtain ⟨args, rfl⟩ := List.head?_eq_some_iff.mp hequate
    rcases opened_of_equate hwords with ⟨e, herror⟩ | ⟨name, text, rfl, hnone, hok⟩
    · rw [definition?_of_error herror] at hd
      cases hd
    · rw [definition?, hok, words_of_ok hwords] at hd
      cases hd
      exact hnone

/-- The equates behind a line: its number is noted, and what it defines is added. -/
theorem equates_opening (v : Visit) :
    (endOf (opening v.number v.line) v.before).equates = v.note v.before.equates := by
  unfold note
  cases hwords : v.start.wordsOf v.line with
  | error e =>
    have hopened : v.opened = .error e v.start := by rw [opened_eq, hwords]
    rw [definition?_of_error hopened, endOf_of_error hopened]
    rfl
  | ok words =>
    by_cases hequate : words.head? = some ".equ"
    · obtain ⟨args, rfl⟩ := List.head?_eq_some_iff.mp hequate
      rcases opened_of_equate hwords with ⟨e, herror⟩ | ⟨name, text, rfl, _, hok⟩
      · rw [definition?_of_error herror, endOf_of_error herror]
        rfl
      · rw [definition?, endOf_of_ok hok, hok, words_of_ok hwords]
        rfl
    · rw [definition?_of_ne (by rwa [words_of_ok hwords])]
      have hopened : v.opened = (defineLabels words >>= openStatement v.number).run v.start := by
        rw [opened_eq, hwords]
        exact run_openWords_of_ne hequate v.number v.start
      have hend : endOf (opening v.number v.line) v.before =
          endOf (defineLabels words >>= openStatement v.number) v.start := by
        unfold endOf
        rw [← hopened]
        rfl
      have hlabels := equates_defineLabels words v.start
      rw [hend, endOf_bind]
      cases hrun : (defineLabels words).run v.start with
      | error e b =>
        rw [endOf_of_error hrun] at hlabels
        exact hlabels
      | ok rest b =>
        rw [endOf_of_ok hrun] at hlabels
        exact (equates_openStatement v.number rest b).trans hlabels

end Visit

/-! ## Lines outside of macros -/

/-- The visits of lines that belong to no macro. -/
def outer (vs : List Visit) : List Visit := vs.filter (·.scope.isNone)

/-- What was visited outside of macros, in one step after another. -/
theorem outer_thenVisits (vs : List Visit) (outcome : EStateM.Result AssemblyError Assembler α)
    (next : α → Assembler → List Visit) :
    outer (thenVisits vs outcome next) =
      thenVisits (outer vs) outcome fun x b => outer (next x b) := by
  cases outcome with
  | ok x b => exact List.filter_append ..
  | error e b => rfl

/-- A body has no visits outside of macros. -/
private theorem outer_visitsOfBody {visits : Nat → String → Assembler → List Visit}
    (hvisits : ∀ number line a, outer (visits number line a) = [])
    (read : Nat → String → Pass Unit) (name : String) (number : Nat) (lines : List String)
    (a : Assembler) : outer (visitsOfBody read visits name number lines a) = [] := by
  induction lines generalizing number a with
  | nil => rfl
  | cons line lines ih =>
    rw [visitsOfBody, outer_thenVisits, hvisits]
    cases (read number (localize name number line)).run a with
    | ok x b => exact ih (number + 1) b
    | error e b => rfl

/-- A call has no visits outside of macros. -/
theorem outer_visitsOfCall {visits : String → Nat → String → Assembler → List Visit}
    (hvisits : ∀ name number line a, outer (visits name number line a) = [])
    (read : Nat → String → Pass Unit) (c : Call) (a : Assembler) :
    outer (visitsOfCall read visits c a) = [] := by
  unfold visitsOfCall
  split
  · rfl
  · exact outer_visitsOfBody (hvisits c.name) read c.name _ _ _

/-- Behind a line outside of macros, all visits are inside. -/
theorem outer_visitsBehind {next : Call → Assembler → List Visit}
    (hnext : ∀ c b, outer (next c b) = []) (v : Visit) :
    outer (visitsBehind v next) = outer [v] := by
  unfold visitsBehind
  split
  · next c b _ =>
    have hcons : outer (v :: next c b) = outer [v] ++ outer (next c b) :=
      List.filter_append [v] (next c b)
    rw [hcons, hnext, List.append_nil]
  · rfl

/-- Of the visits of a line, only the one of the line itself can be outside of macros. -/
theorem outer_visitsOfLine (depth : Nat) (scope : Option String) (number : Nat) (line : String)
    (a : Assembler) :
    outer (visitsOfLine depth scope number line a) = outer [⟨scope, number, line, a⟩] := by
  induction depth generalizing scope number line a with
  | zero => exact outer_visitsBehind (outer_visitsOfCall (fun _ _ _ _ => rfl) _) _
  | succ depth ih =>
    exact outer_visitsBehind (outer_visitsOfCall (fun name => ih (some name)) _) _

/-- Lines outside of macros that are read one after the other, from one table of equates to
another one. -/
inductive Notes : Table String → List Visit → Table String → Prop where
  | nil (table : Table String) : Notes table [] table
  | cons {v : Visit} {vs : List Visit} {table : Table String}
    (hrest : Notes (v.note v.before.equates) vs table) : Notes v.before.equates (v :: vs) table

/-- What was noted in one part and then in another was noted in both. -/
theorem Notes.append {first second third : Table String} {vs ws : List Visit}
    (h : Notes first vs second) (h' : Notes second ws third) : Notes first (vs ++ ws) third := by
  induction h with
  | nil table => exact h'
  | cons _ ih => exact .cons (ih h')

/-- To return something else changes nothing. -/
theorem endOf_andReturn (p : Pass α) (f : α → β) (a : Assembler) :
    endOf (p >>= fun x => pure (f x)) a = endOf p a := by
  rw [endOf_bind]
  cases hrun : p.run a with
  | ok x b => exact (endOf_of_ok hrun).symm
  | error e b => exact (endOf_of_error hrun).symm

/-- The definition of a macro changes no equates. -/
private theorem equates_openMacro (number : Nat) (args : List String) (a : Assembler) :
    (endOf (openMacro number args) a).equates = a.equates := by
  cases args with
  | nil => rfl
  | cons name params =>
    unfold openMacro
    rw [endOf_bind, EStateM.run_get]
    dsimp only
    by_cases hknown : a.macros.contains name = true
    · rw [if_pos hknown]
      rfl
    · rw [if_neg hknown]
      rfl

/-- One line of the source. -/
theorem notes_readSourceLine (number : Nat) (line : String) (opened : Option String)
    (a : Assembler) :
    Notes a.equates (outer (visitsOfSourceLine number line opened a))
      (endOf (readSourceLine number line opened) a).equates := by
  have hsame {b : Assembler} (hb : b.equates = a.equates) : Notes a.equates (outer []) b.equates :=
    hb ▸ .nil _
  unfold readSourceLine visitsOfSourceLine
  generalize (Text.fields line.toList).map String.ofList = words
  split
  case h_1 args =>
    rw [if_pos (.inl rfl)]
    by_cases hopened : opened.isSome = true
    · rw [if_pos hopened]
      exact hsame rfl
    · rw [if_neg hopened]
      refine hsame ?_
      change (endOf (openMacro number args >>= fun name => pure (some name)) a).equates = _
      rw [endOf_andReturn, equates_openMacro]
  case h_2 =>
    rw [if_pos (.inr (.inl rfl))]
    by_cases hopened : opened.isNone = true
    · rw [if_pos hopened]
      exact hsame rfl
    · rw [if_neg hopened]
      exact hsame rfl
  case h_3 hopens hcloses =>
    cases opened with
    | some name =>
      rw [if_pos (.inr (.inr rfl))]
      exact hsame rfl
    | none =>
      have hread : ¬ (words.head? = some ".macro" ∨ words.head? = some ".endm" ∨
          (none : Option String).isSome = true) := by
        simpa [List.head?_eq_some_iff] using And.intro hopens hcloses
      rw [if_neg hread, outer_visitsOfLine]
      dsimp only
      let v : Visit := ⟨none, number, line, a⟩
      have hequates : (endOf (opening number line) a).equates = v.note a.equates :=
        v.equates_opening
      rw [endOf_andReturn, equates_readLine, hequates]
      exact Notes.cons (v := v) (.nil _)

/-- The equates behind lines are noted by their visits. -/
theorem notes_readLines (p : Position) (lines : List String) (a : Assembler) :
    Notes a.equates (outer (visitsOfLines p lines a)) (endOf (readLines p lines) a).equates := by
  induction lines generalizing p a with
  | nil => exact .nil _
  | cons line lines ih =>
    have hline := notes_readSourceLine (p.number + 1) (stripped line) p.opened a
    unfold visitsOfLines readLines
    dsimp only
    rw [outer_thenVisits, endOf_bind, Course.run_within]
    cases hrun : (readSourceLine (p.number + 1) (stripped line) p.opened).run a with
    | error e b =>
      rw [endOf_of_error hrun] at hline
      exact hline
    | ok opened b =>
      rw [endOf_of_ok hrun] at hline
      exact hline.append (ih ⟨p.number + 1, stripped line, opened⟩ b)

/-! ## All definitions of a source -/

/-- The equates that lines define. -/
def definitions (vs : List Visit) : List (String × String) := vs.filterMap Visit.definition?

/-- A table of equates that goes on another one. Lines were read in between: the number of the
last one is noted, their definitions are added, and nothing else is different. -/
structure Extends (table : Table String) (vs : List Visit) (table' : Table String) : Prop where
  /-- No name is defined twice. -/
  distinct : ((definitions vs).map Prod.fst).Nodup
  /-- Only names are defined that were not equated. -/
  new : ∀ d ∈ definitions vs, table[d.1]? = none ∧ d.1 ≠ lineName
  line : table'[lineName]? = (vs.getLast?.map fun v => Nat.repr v.number).or table[lineName]?
  others : ∀ name, name ≠ lineName →
    table'[name]? = ((definitions vs).lookup name).or table[name]?

section Definitions

variable {v : Visit} {vs : List Visit} {table table' : Table String}

/-- The definitions of visits are those of the first and of the others. -/
theorem definitions_cons (v : Visit) (vs : List Visit) :
    definitions (v :: vs) = v.definition?.toList ++ definitions vs := by
  unfold definitions
  rw [List.filterMap_cons]
  cases v.definition? with
  | none => rfl
  | some d => rfl

/-- A line defines a name that was not equated, and not the one for its number. -/
theorem Visit.new_of_definition? {d : String × String} (hd : v.definition? = some d) :
    v.before.equates[d.1]? = none ∧ d.1 ≠ lineName := by
  have hnone := v.not_equated_of_definition? hd
  change (v.before.equates.insert lineName (Nat.repr v.number))[d.1]? = none at hnone
  rw [Std.ExtTreeMap.getElem?_insert] at hnone
  by_cases hname : lineName = d.1
  · rw [if_pos (by simpa using hname)] at hnone
    cases hnone
  · rw [if_neg (by simpa using hname)] at hnone
    exact ⟨hnone, Ne.symm hname⟩

/-- A visit notes its number. -/
private theorem Visit.getElem?_note_lineName (v : Visit) :
    (v.note v.before.equates)[lineName]? = some (Nat.repr v.number) := by
  unfold note
  cases hd : v.definition? with
  | none => exact Std.ExtTreeMap.getElem?_insert_self
  | some d =>
    dsimp only
    rw [Std.ExtTreeMap.getElem?_insert, if_neg (by simpa using (v.new_of_definition? hd).2)]
    exact Std.ExtTreeMap.getElem?_insert_self

/-- A visit notes what it defines and changes no other name. -/
theorem Visit.getElem?_note {name : String} (hname : name ≠ lineName) (v : Visit)
    (table : Table String) :
    (v.note table)[name]? = (v.definition?.toList.lookup name).or table[name]? := by
  have hnoted : (table.insert lineName (Nat.repr v.number))[name]? = table[name]? := by
    rw [Std.ExtTreeMap.getElem?_insert, if_neg (by simpa using Ne.symm hname)]
  unfold note
  cases v.definition? with
  | none => exact hnoted
  | some d =>
    dsimp only
    rw [Std.ExtTreeMap.getElem?_insert, hnoted, Option.toList_some, List.lookup_cons]
    by_cases hd : d.1 = name
    · simp [hd]
    · have hskip : (name == d.1) = false := by simpa using Ne.symm hd
      rw [if_neg (by simpa using hd), hskip]
      rfl

/-- One line, and then what the lines behind it do. -/
theorem Extends.cons (h : Extends (v.note v.before.equates) vs table') :
    Extends v.before.equates (v :: vs) table' := by
  have hnew : ∀ d ∈ definitions vs, v.before.equates[d.1]? = none ∧ d.1 ≠ lineName ∧
      v.definition?.toList.lookup d.1 = none := by
    intro d hd
    obtain ⟨hnone, hline⟩ := h.new d hd
    rw [Visit.getElem?_note hline] at hnone
    obtain ⟨hown, hbefore⟩ := Option.or_eq_none_iff.mp hnone
    exact ⟨hbefore, hline, hown⟩
  refine ⟨?_, ?_, ?_, ?_⟩
  · rw [definitions_cons]
    cases hd : v.definition? with
    | none => exact h.distinct
    | some d =>
      refine List.nodup_cons.mpr ⟨fun hmem => ?_, h.distinct⟩
      obtain ⟨d', hd', heq⟩ := List.mem_map.mp hmem
      have hlookup := (hnew d' hd').2.2
      rw [hd, Option.toList_some, heq, List.lookup_cons] at hlookup
      simp at hlookup
  · intro d hd
    rw [definitions_cons] at hd
    rcases List.mem_append.mp hd with hown | hd
    · exact v.new_of_definition? (Option.mem_toList.mp hown)
    · exact ⟨(hnew d hd).1, (hnew d hd).2.1⟩
  · rw [h.line, v.getElem?_note_lineName]
    cases vs with
    | nil => rfl
    | cons w ws =>
      rw [List.getLast?_cons_cons]
      cases hlast : (w :: ws).getLast? with
      | none => cases List.getLast?_eq_none_iff.mp hlast
      | some last => rfl
  · intro name hname
    rw [h.others name hname, Visit.getElem?_note hname, definitions_cons, List.lookup_append]
    -- The name is defined either by this line or by a later one.
    cases hlater : (definitions vs).lookup name with
    | none => rw [Option.none_or, Option.or_none]
    | some text =>
      have hmem := Operand.mem_of_lookup hlater
      rw [(hnew _ hmem).2.2]
      rfl

/-- What was noted was extended. -/
theorem Notes.extends (h : Notes table vs table') : Extends table vs table' := by
  induction h with
  | nil table =>
    refine ⟨List.nodup_nil, fun d hd => absurd hd List.not_mem_nil, rfl, fun name _ => rfl⟩
  | cons _ ih => exact ih.cons

end Definitions

/-- The end of a source concerns no equates. -/
theorem equates_finish (order : LinkOrder) (source : Source) (p : Position) (a : Assembler) :
    (endOf (finish order source p) a).equates = a.equates := by
  rcases run_finish_cases source p a with hlink | ⟨e, _, herror⟩
  · rw [endOf, hlink, run_link]
    cases linkEntries order a.labels 0 a.entries.toList with
    | error e entries => rfl
    | ok _ entries => rfl
  · rw [endOf, herror]

/-- The equates behind a source are those behind its lines. -/
theorem equates_parse (order : LinkOrder) (source : Source) (a : Assembler) :
    (endOf (parse order source) a).equates =
      (endOf (readLines {} source.lines) a.fresh).equates := by
  have hparse : endOf (parse order source) a = endOf (readLines {} source.lines >>= fun p =>
      within (.atLine p.number p.line) (finish order source p)) a.fresh := rfl
  rw [hparse, endOf_bind]
  cases hlines : (readLines {} source.lines).run a.fresh with
  | error e b => rw [endOf_of_error hlines]
  | ok p b =>
    rw [endOf_of_ok hlines]
    dsimp only
    rw [Course.endOf_within, equates_finish]

/-! ## A macro that fails behind a definition -/

/-- A line that defines an equate. -/
theorem run_readLine_of_equate {number : Nat} {line name text : String} {a : Assembler}
    (hwords : (a.numbered number).wordsOf line = .ok [".equ", name, text])
    (hnone : (a.numbered number).equates[name]? = none) (depth : Nat) :
    (readLine depth number line).run a = .ok () { a.numbered number with
      equates := (a.numbered number).equates.insert name text } := by
  obtain ⟨call, hcall⟩ := exists_readLine_eq depth
  have hdefine : (defineEquate [name, text]).run (a.numbered number) = .ok ()
      { a.numbered number with equates := (a.numbered number).equates.insert name text } := by
    unfold defineEquate
    rw [EStateM.run_bind, EStateM.run_get]
    dsimp only
    rw [if_neg (by simpa using hnone)]
    rfl
  rw [hcall]
  unfold readLineWith
  simp only [liftM_pass]
  rw [EStateM.run_bind, run_setLine]
  dsimp only
  rw [EStateM.run_bind, Course.run_readWords, hwords]
  exact hdefine

namespace Forgetting

/-- A macro that defines an equate by its parameter, and then fails. -/
def callee : Macro := ⟨2, ["x"], #[".equ y x", "foo y"]⟩

/-- The call of the macro. -/
def call : Call := ⟨callee, "m", ["7"]⟩

/-- The assembler at the call. -/
def start : Assembler := (defined callee).numbered 5

/-- The line opens the call. -/
theorem run_opening : (opening 5 "m 7").run (defined callee) = .ok (some call) start := by
  have hwords : start.wordsOf "m 7" = .ok ["m", "7"] :=
    wordsOf_of_not_mem (by decide) (by decide) _
  exact run_opening_of_name hwords (by decide) rfl
    (Lists.eq_none_of_mem (lists_defined callee) (by decide))
    Std.ExtTreeMap.getElem?_insert_self

/-- In the call, at the first line of the macro. -/
theorem lists_bound : Lists (pairsAt 2 [("x", "7"), (lineName, "5")])
    ((bound call.bindings start).numbered 2).equates :=
  lists_numbered 2 _ (Lists.insert (lists_defined callee) "x" "7")

/-- The assembler in the call, behind the first line of the macro. -/
def inner : Assembler :=
  let noted := (bound call.bindings start).numbered 2
  { noted with equates := noted.equates.insert "y" "x" }

/-- The first line of the macro defines an equate. -/
theorem run_first : (readLine 0 2 ".equ y x").run (bound call.bindings start) = .ok () inner := by
  exact run_readLine_of_equate (wordsOf_of_not_mem (by decide) (by decide) _)
    (Lists.eq_none lists_bound (by decide)) 0

/-- The second line is no instruction. -/
theorem run_second :
    (readLine 0 3 "foo y").run inner = .error .instructionInvalid (inner.numbered 3) := by
  have hlists : Lists (pairsAt 3 [("y", "x"), (lineName, "2"), ("x", "7"), (lineName, "5")])
      (inner.numbered 3).equates :=
    lists_numbered 3 _ (Lists.insert lists_bound "y" "x")
  have hwords : (inner.numbered 3).wordsOf "foo y" = .ok ["foo", "y"] :=
    wordsOf_of_not_mem (by decide) (by decide) _
  have hy : (inner.numbered 3).equates["y"]? = some "x" := by
    change (inner.equates.insert lineName "3")["y"]? = some "x"
    rw [Std.ExtTreeMap.getElem?_insert, if_neg (by decide)]
    exact Std.ExtTreeMap.getElem?_insert_self
  have hstatement : ["foo", "y"].map (inner.numbered 3).substitute = ["foo", "x"] := by
    rw [List.map_cons, List.map_cons, List.map_nil, substitute, substitute, hy,
      hlists.eq_none (by decide)]
    rfl
  obtain ⟨_, hcall⟩ := exists_readLine_eq 0
  rw [hcall, run_readLineWith hwords (by decide) (run_defineLabels_of_none rfl _ _) hstatement
    (macros_defined callee (by decide))]
  exact run_emit_of_error rfl 3

/-- The call fails at the second line, and its equates are gone. -/
theorem run_call : (readLine 1 5 "m 7").run (defined callee) =
    .error (.atLine 3 "foo y" (.inMacro "m" 3 .instructionInvalid))
      (unbound start (inner.numbered 3)) := by
  have hfirst : localize "m" 2 ".equ y x" = ".equ y x" := by decide
  have hsecond : localize "m" 3 "foo y" = "foo y" := by decide
  have hbody : (readBody (readLine 0) "m" 2 [".equ y x", "foo y"]).run
      (bound call.bindings start) =
      .error (.atLine 3 "foo y" (.inMacro "m" 3 .instructionInvalid)) (inner.numbered 3) := by
    rw [readBody, hfirst, EStateM.run_bind, Course.run_within, run_first]
    dsimp only
    rw [readBody, hsecond, EStateM.run_bind, Course.run_within, run_second]
  rw [readLine, readLineWith_eq_bind, EStateM.run_bind, run_opening]
  dsimp only
  rw [performCall, callWith, if_neg (by decide)]
  change (withEquates call.bindings (readBody (readLine 0) "m" 2 [".equ y x", "foo y"])).run
    start = _
  rw [Course.run_withEquates, hbody]

end Forgetting

/-! ## What is left of equates -/

/-- Arguments of macros and the equates of their lines never leak. A line that calls a macro
leaves the equates as they were, except for its own number, at any depth and whether the call
succeeds or fails. So behind any number of lines of a source, also where it fails, the equates are
those that every source starts with, the number of the last line that was read outside of macros,
and the definitions that were accepted there. No name is defined twice, and none that was equated
at the beginning. The end of the source changes nothing of this. -/
theorem equates_never_leak :
    (∀ (a b : Assembler) (depth number : Nat) (line : String) (c : Call),
      (opening number line).run a = .ok (some c) b →
        (endOf (readLine depth number line) a).equates =
          a.equates.insert lineName (Nat.repr number)) ∧
    ∀ (order : LinkOrder) (source : Source) (a : Assembler),
      (∀ k, Extends (initialEquates a.predefined)
        (outer (visitsOfLines {} (source.lines.take k) a.fresh))
        (endOf (readLines {} (source.lines.take k)) a.fresh).equates) ∧
      (endOf (parse order source) a).equates =
        (endOf (readLines {} source.lines) a.fresh).equates := by
  refine ⟨?_, fun order source a => ⟨fun k => ?_, equates_parse order source a⟩⟩
  · intro a b depth number line c hopen
    obtain ⟨names, rfl⟩ := eq_of_opening hopen
    rw [equates_readLine, endOf_of_ok hopen]
    rfl
  · exact (notes_readLines {} (source.lines.take k) a.fresh).extends

/-- The call of a macro that has bound its parameter and defined an equate when it fails. -/
theorem equates_never_leak_failed_call :
    (opening 5 "m 7").run (defined Forgetting.callee) =
        .ok (some Forgetting.call) Forgetting.start ∧
      (∃ b, (readLine 1 5 "m 7").run (defined Forgetting.callee) =
        .error (.atLine 3 "foo y" (.inMacro "m" 3 .instructionInvalid)) b) ∧
      (endOf (readLine 1 5 "m 7") (defined Forgetting.callee)).equates =
        (fresh {}).equates.insert lineName "5" :=
  ⟨Forgetting.run_opening, ⟨_, Forgetting.run_call⟩,
    equates_never_leak.1 _ _ 1 5 _ _ Forgetting.run_opening⟩

end TapeMachine.Assembler
