import TapeMachine.Proofs.EquateScope
import TapeMachine.Proofs.WrittenListing

/-!
# Operands that are equates

The name of an equate stands for its text, whether it is an operand by itself or behind a
mark. By itself it is replaced as a word, and the text is then looked up once more as a term.
Behind a mark it is only looked up as a term. So the two mean the same unless the text is the
name of another equate: then the bare operand is what that one spells, and the marked ones
are what its name is.
-/

namespace TapeMachine

namespace Operand

/-- What is a term by itself has no mark. -/
theorem parts_of_term {word : String} {t : Term} (hterm : term word = .ok t) :
    parts word = (.bare, word) := by
  have hbare : (parts word).1 = .bare := by
    by_contra hform
    obtain ⟨e, herror⟩ := term_of_mark hform
    rw [hterm] at herror
    cases herror
  have hword := mark_append_parts word
  rw [hbare] at hword
  exact Prod.ext hbare (String.empty_append.symm.trans hword)

/-- Numbers and labels are terms. -/
private theorem exists_term_of_number_or_label {word : String}
    (hword : (∃ w, Numeral.readAnnounced word.toList = .value w) ∨ isLabel word = true) :
    ∃ t, term word = .ok t := by
  unfold term
  obtain ⟨w, hw⟩ | hlabel := hword
  · rw [hw]
    exact ⟨_, rfl⟩
  · cases Numeral.readAnnounced word.toList with
    | value w => exact ⟨_, rfl⟩
    | overflow w => exact ⟨_, if_pos hlabel⟩
    | malformed => exact ⟨_, if_pos hlabel⟩

end Operand

namespace Assembler

/-! ## The operands of a line -/

/-- What a word of a line is as an operand. -/
def operandOf (a : Assembler) (word : String) : Except AssemblyError (Mode × Term) :=
  Operand.read a.equates (a.substitute word)

/-- A line with an operation behind new labels, and the words for its operands. -/
structure Writes (a : Assembler) (line : String) (labels : List String) (op : Opcode)
    (args : List String) : Prop where
  words : ∃ words, a.wordsOf line = .ok words ∧ frontLabels words = labels ∧
    words.drop labels.length = op.mnemonic :: args
  new : New a labels
  unequated : a.equates[op.mnemonic]? = none
  uncalled : a.macros[op.mnemonic]? = none

variable {a b : Assembler} {number : Nat} {line : String} {labels args : List String}
  {op : Opcode}

/-- No operation is written like an equate. -/
private theorem mnemonic_ne_equate (op : Opcode) : op.mnemonic ≠ ".equ" := by
  cases op <;> decide

/-- An operation with labels in front of it is emitted behind their definition. -/
theorem Writes.run_readLine (h : (a.numbered number).Writes line labels op args) (depth : Nat) :
    (readLine depth number line).run a =
      (emit number (op.mnemonic :: args.map (a.numbered number).substitute)).run
        ((a.numbered number).withLabels labels) := by
  obtain ⟨words, hwords, rfl, hrest⟩ := h.words
  have hequate : words.head? ≠ some ".equ" := by
    intro hequate
    rw [frontLabels_of_equate hequate] at hrest
    rw [show words = op.mnemonic :: args from hrest] at hequate
    exact mnemonic_ne_equate op (Option.some.inj hequate)
  have hlabels := run_defineLabels_of_new h.new
  have hstatement : (words.drop (frontLabels words).length).map
      ((a.numbered number).withLabels (frontLabels words)).substitute =
        op.mnemonic :: args.map (a.numbered number).substitute := by
    rw [hrest, List.map_cons]
    have hname : (a.numbered number).substitute op.mnemonic = op.mnemonic := by
      rw [substitute, h.unequated]
      rfl
    exact congrArg (· :: _) hname
  obtain ⟨_, hcall⟩ := exists_readLine_eq depth
  rw [hcall]
  exact run_readLineWith hwords hequate hlabels hstatement h.uncalled

/-- An operation is assembled operand by operand. -/
theorem Writes.run_readLine_iff (h : (a.numbered number).Writes line labels op args)
    (depth : Nat) :
    (readLine depth number line).run a = .ok () b ↔
      ∃ operands : List (Mode × Term),
        List.Forall₂ (fun word operand => (a.numbered number).operandOf word = .ok operand)
          args operands ∧ operands.length = op.arity ∧
        (op.writes = true → (operands.map Prod.fst).getLast? ≠ some .immediate) ∧
        b = ((a.numbered number).withLabels labels).added
          ⟨number, a.here, op.mnemonic :: args.map (a.numbered number).substitute,
            ⟨Instruction.encode op (operands.map Prod.fst), none⟩ :: operands.map Prod.snd⟩ := by
  rw [h.run_readLine]
  have hassemble {terms : List Term} :
      Instruction.assemble ((a.numbered number).withLabels labels).equates
          (op.mnemonic :: args.map (a.numbered number).substitute) = .ok terms ↔
        ∃ operands : List (Mode × Term),
          List.Forall₂ (fun word operand => (a.numbered number).operandOf word = .ok operand)
            args operands ∧ operands.length = op.arity ∧
          (op.writes = true → (operands.map Prod.fst).getLast? ≠ some .immediate) ∧
          terms = ⟨Instruction.encode op (operands.map Prod.fst), none⟩ ::
            operands.map Prod.snd := by
    rw [Instruction.assemble_mnemonic, Instruction.assembleOperation_eq_ok_iff]
    simp only [List.forall₂_map_left_iff]
    rfl
  constructor
  · intro hrun
    cases hterms : Instruction.assemble ((a.numbered number).withLabels labels).equates
        (op.mnemonic :: args.map (a.numbered number).substitute) with
    | error e =>
      rw [run_emit_of_error hterms] at hrun
      cases hrun
    | ok terms =>
      obtain ⟨operands, hread, hlength, hlast, rfl⟩ := hassemble.mp hterms
      rw [run_emit_of_ok hterms (List.cons_ne_nil _ _)] at hrun
      injection hrun with _ hb
      exact ⟨operands, hread, hlength, hlast, hb.symm⟩
  · rintro ⟨operands, hread, hlength, hlast, rfl⟩
    exact run_emit_of_ok (hassemble.mpr ⟨operands, hread, hlength, hlast, rfl⟩)
      (List.cons_ne_nil _ _)

/-- An operand of an operation that is assembled has its place among the parameters. -/
theorem Writes.exists_parameters {before behind : List String} {word : String}
    (h : (a.numbered number).Writes line labels op (before ++ word :: behind)) {depth : Nat}
    (hrun : (readLine depth number line).run a = .ok () b) {operand : Mode × Term}
    (hword : (a.numbered number).operandOf word = .ok operand) :
    ∃ words modes terms, b.entries = a.entries.push
        ⟨number, a.here, words, ⟨Instruction.encode op modes, none⟩ :: terms⟩ ∧
      modes[before.length]? = some operand.1 ∧ terms[before.length]? = some operand.2 := by
  obtain ⟨operands, hread, _, _, rfl⟩ := (h.run_readLine_iff depth).mp hrun
  have hplace : (before ++ word :: behind)[before.length]? = some word := by simp
  obtain ⟨found, hfound, hoperand⟩ := Outcome.exists_getElem?_of_forall₂ hread hplace
  obtain rfl : operand = found := Except.ok.inj (hword.symm.trans hoperand)
  exact ⟨_, operands.map Prod.fst, operands.map Prod.snd, rfl, by simp [hfound], by simp [hfound]⟩

/-! ## Names with and without a mark -/

variable {name text : String} {t : Term}

/-- A name by itself is what its text is as a term, in which an equate is looked up again. -/
theorem operandOf_of_equate (hname : a.equates[name]? = some text)
    (hterm : Operand.term text = .ok t) (hbase : text ≠ "rb") :
    a.operandOf name = (Operand.resolve a.equates text).map (Mode.position, ·) := by
  rw [operandOf, substitute, hname, Option.getD_some, Operand.read_eq hbase,
    Operand.parts_of_term hterm]
  cases Operand.resolve a.equates text with
  | error e => rfl
  | ok t => rfl

/-- A name behind a mark is what its text is as a term. -/
theorem operandOf_of_mark (form : Operand.Form) (hform : form ≠ .bare)
    (hname : a.equates[name]? = some text) (hterm : Operand.term text = .ok t)
    (hword : a.equates[form.mark ++ name]? = none) :
    a.operandOf (form.mark ++ name) = form.operand t := by
  have hbase : form.mark ++ name ≠ "rb" := by
    intro h
    have hparts := Operand.parts_mark_append hform name
    rw [h] at hparts
    exact hform (congrArg Prod.fst hparts).symm
  rw [operandOf, substitute, hword, Option.getD_none, Operand.read_eq hbase,
    Operand.parts_mark_append hform, Operand.resolve, hname, Option.getD_some, hterm]
  rfl

/-! ## An equate that is another one -/

/-- The equates at the first line of a source. -/
theorem lists_firstLine : Lists (pairsAt 1 []) ((fresh {}).numbered 1).equates :=
  lists_numbered 1 [] lists_fresh

namespace Chained

/-- A source that equates a name to a name which is both an equate and a label. -/
def source : Source := { text := ".equ A 5\n.equ B A\nA: out B\nout #B\nout rb+B" }

/-- An assembler that has read the equates. -/
structure Knows (a : Assembler) : Prop where
  first : a.equates["A"]? = some "5"
  second : a.equates["B"]? = some "A"
  others : ∀ word ∈ ["out", "5", "#A", "rb+A", "#B", "rb+B"], a.equates[word]? = none
  macros : a.macros = ∅

/-- The number of a line makes no difference. -/
theorem Knows.numbered {a : Assembler} (h : Knows a) (number : Nat) :
    Knows (a.numbered number) := by
  have hother {word : String} (hword : word ≠ lineName) :
      (a.numbered number).equates[word]? = a.equates[word]? := by
    change (a.equates.insert lineName (Nat.repr number))[word]? = _
    rw [Std.ExtTreeMap.getElem?_insert, if_neg (by simpa using hword.symm)]
  refine ⟨?_, ?_, fun word hword => ?_, h.macros⟩
  · rw [hother (by decide), h.first]
  · rw [hother (by decide), h.second]
  · have hline : ∀ word ∈ ["out", "5", "#A", "rb+A", "#B", "rb+B"], word ≠ lineName := by decide
    rw [hother (hline word hword), h.others word hword]

/-- Labels and entries make no difference. -/
theorem Knows.extended {a : Assembler} (h : Knows a) (names : List String) (e : Entry) :
    Knows ((a.withLabels names).added e) := ⟨h.first, h.second, h.others, h.macros⟩

/-- No name is that of a macro. -/
theorem Knows.uncalled {a : Assembler} (h : Knows a) (name : String) : a.macros[name]? = none := by
  rw [h.macros]
  exact Std.ExtTreeMap.getElem?_empty

/-- An operation without labels that writes one value. -/
theorem Knows.writes {a : Assembler} (h : Knows a) {line word : String}
    (hwords : a.wordsOf line = .ok ["out", word]) : a.Writes line [] .output [word] :=
  ⟨⟨_, hwords, rfl, rfl⟩, New.nil a, h.others "out" (by decide), h.uncalled "out"⟩

/-- The assembler behind the first equate. -/
def firstRead : Assembler :=
  { (fresh {}).numbered 1 with equates := ((fresh {}).numbered 1).equates.insert "A" "5" }

/-- The assembler behind the second equate. -/
def secondRead : Assembler :=
  { firstRead.numbered 2 with equates := (firstRead.numbered 2).equates.insert "B" "A" }

/-- The entry of the bare operand. -/
def bareEntry : Entry := ⟨3, 0, ["out", "A"], [⟨4, none⟩, ⟨5, none⟩]⟩

/-- The entry of the immediate operand. -/
def immediateEntry : Entry := ⟨4, 2, ["out", "#B"], [⟨104, none⟩, ⟨0, some "A"⟩]⟩

/-- The entry of the relative operand. -/
def relativeEntry : Entry := ⟨5, 4, ["out", "rb+B"], [⟨204, none⟩, ⟨0, some "A"⟩]⟩

/-- The assembler behind the bare operand. -/
def bareRead : Assembler := ((secondRead.numbered 3).withLabels ["A"]).added bareEntry

/-- The assembler behind the immediate operand. -/
def immediateRead : Assembler := (bareRead.numbered 4).added immediateEntry

/-- The assembler behind the relative operand. -/
def relativeRead : Assembler := (immediateRead.numbered 5).added relativeEntry

/-- The equates at the second line. -/
theorem lists_second :
    Lists (pairsAt 2 [("A", "5"), (lineName, "1")]) (firstRead.numbered 2).equates :=
  lists_numbered 2 _ (Lists.insert lists_firstLine "A" "5")

/-- Both equates are known behind their lines. -/
theorem knows_secondRead : Knows secondRead := by
  refine ⟨?_, Std.ExtTreeMap.getElem?_insert_self, ?_, rfl⟩
  · change ((firstRead.equates.insert lineName "2").insert "B" "A")["A"]? = some "5"
    rw [Std.ExtTreeMap.getElem?_insert, if_neg (by decide), Std.ExtTreeMap.getElem?_insert,
      if_neg (by decide)]
    exact Std.ExtTreeMap.getElem?_insert_self
  · exact (Lists.insert lists_second "B" "A").eq_none_of_mem (by decide)

/-- They are known behind the bare operand. -/
theorem knows_bareRead : Knows bareRead := (knows_secondRead.numbered 3).extended ["A"] bareEntry

/-- They are known behind the immediate operand. -/
private theorem knows_immediateRead : Knows immediateRead :=
  (knows_bareRead.numbered 4).extended [] immediateEntry

/-- The first line equates a name to a number. -/
theorem run_first (depth : Nat) :
    (readLine depth 1 ".equ A 5").run (fresh {}) = .ok () firstRead :=
  run_readLine_of_equate (wordsOf_of_not_mem (by decide) (by decide) _)
    (Lists.eq_none lists_firstLine (by decide)) depth

/-- The second line equates a name to the first name. -/
theorem run_second (depth : Nat) :
    (readLine depth 2 ".equ B A").run firstRead = .ok () secondRead :=
  run_readLine_of_equate (wordsOf_of_not_mem (by decide) (by decide) _)
    (Lists.eq_none lists_second (by decide)) depth

/-- The bare name is what the other equate spells. -/
theorem Knows.operandOf_bare {a : Assembler} (h : Knows a) :
    a.operandOf "B" = .ok (.position, ⟨5, none⟩) := by
  rw [operandOf_of_equate (t := ⟨0, some "A"⟩) h.second rfl (by decide), Operand.resolve, h.first]
  rfl

/-- The marked name is the label that the other equate is named like. -/
theorem Knows.operandOf_mark {a : Assembler} (h : Knows a) {form : Operand.Form}
    (hform : form = .immediate ∨ form = .above) :
    a.operandOf (form.mark ++ "B") = form.operand ⟨0, some "A"⟩ := by
  obtain rfl | rfl := hform
  · exact operandOf_of_mark .immediate (by decide) h.second rfl (h.others "#B" (by decide))
  · exact operandOf_of_mark .above (by decide) h.second rfl (h.others "rb+B" (by decide))

/-- The bare operand is the number. -/
private theorem run_bare (depth : Nat) :
    (readLine depth 3 "A: out B").run secondRead = .ok () bareRead := by
  have hknows := knows_secondRead.numbered 3
  have hwrites : (secondRead.numbered 3).Writes "A: out B" ["A"] .output ["B"] := by
    refine ⟨⟨["A:", "out", "B"], ?_, by decide, by decide⟩,
      ⟨List.nodup_singleton "A", fun _ _ => Std.ExtTreeMap.getElem?_empty⟩,
      hknows.others "out" (by decide), hknows.uncalled "out"⟩
    exact wordsOf_of_not_mem (by decide) (by decide) _
  have hwords : ["B"].map (secondRead.numbered 3).substitute = ["A"] := by
    rw [List.map_singleton, substitute, hknows.second]
    rfl
  refine (hwrites.run_readLine_iff depth).mpr
    ⟨[_], .cons hknows.operandOf_bare .nil, rfl, fun h => absurd h (by decide), ?_⟩
  rw [hwords]
  rfl

/-- A line that writes the marked name. -/
theorem Knows.run_marked {a : Assembler} (h : Knows a) {number : Nat} {line : String}
    (form : Operand.Form) (hform : form = .immediate ∨ form = .above) {mode : Mode}
    (hmode : form.operand ⟨0, some "A"⟩ = .ok (mode, ⟨0, some "A"⟩))
    (hwords : (a.numbered number).wordsOf line = .ok ["out", form.mark ++ "B"]) (depth : Nat) :
    (readLine depth number line).run a = .ok () ((a.numbered number).added
      ⟨number, a.here, ["out", form.mark ++ "B"],
        [⟨Instruction.encode .output [mode], none⟩, ⟨0, some "A"⟩]⟩) := by
  have hknows := h.numbered number
  have hnone : (a.numbered number).equates[form.mark ++ "B"]? = none := by
    obtain rfl | rfl := hform
    · exact hknows.others "#B" (by decide)
    · exact hknows.others "rb+B" (by decide)
  have hword : [form.mark ++ "B"].map (a.numbered number).substitute = [form.mark ++ "B"] :=
    map_substitute_of_none (by simpa using hnone)
  have hoperand := (hknows.operandOf_mark hform).trans hmode
  refine ((hknows.writes hwords).run_readLine_iff depth).mpr
    ⟨[_], .cons hoperand .nil, rfl, fun h => absurd h (by decide), ?_⟩
  rw [hword]
  rfl

/-- The immediate operand is the label. -/
private theorem run_immediate (depth : Nat) :
    (readLine depth 4 "out #B").run bareRead = .ok () immediateRead :=
  knows_bareRead.run_marked .immediate (.inl rfl) rfl
    (wordsOf_of_not_mem (by decide) (by decide) _) depth

/-- The relative operand is the label. -/
private theorem run_relative (depth : Nat) :
    (readLine depth 5 "out rb+B").run immediateRead = .ok () relativeRead :=
  knows_immediateRead.run_marked .above (.inr rfl) rfl
    (wordsOf_of_not_mem (by decide) (by decide) _) depth

/-- The source is read to its end. -/
theorem run_lines :
    (readLines {} source.lines).run (fresh {}) = .ok ⟨5, "out rb+B", none⟩ relativeRead := by
  have hlines : source.lines =
      [".equ A 5", ".equ B A", "A: out B", "out #B", "out rb+B"] := rfl
  have hfirst : (readSourceLine 1 ".equ A 5" none).run (fresh {}) = .ok none firstRead :=
    run_readSourceLine_of_ne (by decide) (by decide) (run_first maxDepth)
  have hsecond : (readSourceLine 2 ".equ B A" none).run firstRead = .ok none secondRead :=
    run_readSourceLine_of_ne (by decide) (by decide) (run_second maxDepth)
  have hbare : (readSourceLine 3 "A: out B" none).run secondRead = .ok none bareRead :=
    run_readSourceLine_of_ne (by decide) (by decide) (run_bare maxDepth)
  have himmediate : (readSourceLine 4 "out #B" none).run bareRead = .ok none immediateRead :=
    run_readSourceLine_of_ne (by decide) (by decide) (run_immediate maxDepth)
  have hrelative : (readSourceLine 5 "out rb+B" none).run immediateRead =
      .ok none relativeRead :=
    run_readSourceLine_of_ne (by decide) (by decide) (run_relative maxDepth)
  have hstripped : stripped ".equ A 5" = ".equ A 5" ∧ stripped ".equ B A" = ".equ B A" ∧
      stripped "A: out B" = "A: out B" ∧ stripped "out #B" = "out #B" ∧
      stripped "out rb+B" = "out rb+B" := ⟨rfl, rfl, rfl, rfl, rfl⟩
  rw [hlines, readLines, hstripped.1, EStateM.run_bind, Course.run_within, hfirst]
  dsimp only
  rw [readLines, hstripped.2.1, EStateM.run_bind, Course.run_within, hsecond]
  dsimp only
  rw [readLines, hstripped.2.2.1, EStateM.run_bind, Course.run_within, hbare]
  dsimp only
  rw [readLines, hstripped.2.2.2.1, EStateM.run_bind, Course.run_within, himmediate]
  dsimp only
  rw [readLines, hstripped.2.2.2.2, EStateM.run_bind, Course.run_within, hrelative]
  rfl

/-- The label stands at address zero, so linking changes nothing. -/
theorem run_link : ∃ b, ∀ order, (link order).run relativeRead =
    .ok ⟨#[bareEntry, immediateEntry, relativeEntry]⟩ b := by
  have hlabel : relativeRead.labels["A"]? = some 0 := Std.ExtTreeMap.getElem?_insert_self
  have hterm : Term.Linked relativeRead.labels ⟨0, some "A"⟩ ⟨0, some "A"⟩ := .label hlabel 0
  have hbare : Entry.Linked relativeRead.labels bareEntry bareEntry :=
    ⟨bareEntry.terms, .cons (.plain 4) (.cons (.plain 5) .nil), rfl⟩
  have himmediate : Entry.Linked relativeRead.labels immediateEntry immediateEntry :=
    ⟨immediateEntry.terms, .cons (.plain 104) (.cons hterm .nil), rfl⟩
  have hrelative : Entry.Linked relativeRead.labels relativeEntry relativeEntry :=
    ⟨relativeEntry.terms, .cons (.plain 204) (.cons hterm .nil), rfl⟩
  exact ⟨_, fun order =>
    link_eq_ok_iff.mpr ⟨.cons hbare (.cons himmediate (.cons hrelative .nil)), rfl⟩⟩

end Chained

/-! ## What a name stands for -/

/-- An operation is assembled operand by operand, and what an operand is by the name of an
equate depends on its mark. Behind `#` and `rb+` the name stands for the text of the equate as a
term, unless the whole word is an equate itself. By itself it stands for the text with one
more equate looked up in it. So the three operands are of the same term if the text is not the
name of an equate, and otherwise just if that other equate spells what its name is. -/
theorem operands_of_equate (a : Assembler) :
    (∀ (b : Assembler) (depth number : Nat) (line : String) (labels : List String)
      (op : Opcode) (args : List String), (a.numbered number).Writes line labels op args →
      ((readLine depth number line).run a = .ok () b ↔
        ∃ operands : List (Mode × Term),
          List.Forall₂ (fun word operand => (a.numbered number).operandOf word = .ok operand)
            args operands ∧ operands.length = op.arity ∧
          (op.writes = true → (operands.map Prod.fst).getLast? ≠ some .immediate) ∧
          b = ((a.numbered number).withLabels labels).added
            ⟨number, a.here, op.mnemonic :: args.map (a.numbered number).substitute,
              ⟨Instruction.encode op (operands.map Prod.fst), none⟩ ::
                operands.map Prod.snd⟩)) ∧
    ∀ name text : String, a.equates[name]? = some text →
      ((∃ w, Numeral.readAnnounced text.toList = .value w) ∨
        Operand.isLabel text = true ∧ text ≠ "rb") →
      ∃ t, Operand.term text = .ok t ∧
        (a.equates["#" ++ name]? = none → a.operandOf ("#" ++ name) = .ok (.immediate, t)) ∧
        (a.equates["rb+" ++ name]? = none → a.operandOf ("rb+" ++ name) = .ok (.relative, t)) ∧
        (a.operandOf name = .ok (.position, t) ↔ Operand.resolve a.equates text = .ok t) ∧
        (a.equates[text]? = none → a.operandOf name = .ok (.position, t)) ∧
        ∀ other, a.equates[text]? = some other →
          a.operandOf name = (Operand.term other).map (Mode.position, ·) := by
  refine ⟨fun b depth number line labels op args h => h.run_readLine_iff depth, ?_⟩
  intro name text hname htext
  have hbase : text ≠ "rb" := by
    obtain ⟨w, hw⟩ | ⟨_, hbase⟩ := htext
    · rintro rfl
      cases hw
    · exact hbase
  obtain ⟨t, hterm⟩ := Operand.exists_term_of_number_or_label (htext.imp_right And.left)
  have hbare := operandOf_of_equate hname hterm hbase
  have hresolve : a.operandOf name = .ok (.position, t) ↔
      Operand.resolve a.equates text = .ok t := by
    rw [hbare]
    cases Operand.resolve a.equates text with
    | error e => simp [Except.map]
    | ok t' => simp [Except.map]
  refine ⟨t, hterm, fun hword => ?_, fun hword => ?_, hresolve, fun hnone => ?_, ?_⟩
  · exact operandOf_of_mark .immediate (by decide) hname hterm hword
  · exact operandOf_of_mark .above (by decide) hname hterm hword
  · rw [hresolve, Operand.resolve, hnone]
    exact hterm
  · intro other hother
    rw [hbare, Operand.resolve, hother]
    rfl

/-- An equate for a number, and one for the name of an equate. -/
theorem operands_of_equate_chained :
    (Chained.secondRead.operandOf "A" = .ok (.position, ⟨5, none⟩) ∧
      Chained.secondRead.operandOf "#A" = .ok (.immediate, ⟨5, none⟩) ∧
      Chained.secondRead.operandOf "rb+A" = .ok (.relative, ⟨5, none⟩)) ∧
    Chained.secondRead.operandOf "B" = .ok (.position, ⟨5, none⟩) ∧
      Chained.secondRead.operandOf "#B" = .ok (.immediate, ⟨0, some "A"⟩) ∧
      Chained.secondRead.operandOf "rb+B" = .ok (.relative, ⟨0, some "A"⟩) := by
  obtain ⟨hfirst, hsecond, hothers, _⟩ := Chained.knows_secondRead
  obtain ⟨t, hterm, himmediate, hrelative, _, hbare, _⟩ :=
    (operands_of_equate _).2 "A" "5" hfirst (.inl ⟨5, rfl⟩)
  obtain ⟨u, hother, himmediate', hrelative', _, _, hbare'⟩ :=
    (operands_of_equate _).2 "B" "A" hsecond (.inr (by decide))
  obtain rfl : ⟨5, none⟩ = t := Except.ok.inj hterm
  obtain rfl : ⟨0, some "A"⟩ = u := Except.ok.inj hother
  exact ⟨⟨hbare (hothers "5" (by decide)), himmediate (hothers "#A" (by decide)),
    hrelative (hothers "rb+A" (by decide))⟩, hbare' "5" hfirst,
    himmediate' (hothers "#B" (by decide)), hrelative' (hothers "rb+B" (by decide))⟩

/-- The operands of one equate in a program: the bare one is the number that the other equate
spells, and the marked ones are the label of the same name. -/
theorem operands_differ :
    ∃ b, ∀ order, (parse order Chained.source).run ({} : Assembler) =
      .ok ⟨#[⟨3, 0, ["out", "A"], [⟨4, none⟩, ⟨5, none⟩]⟩,
        ⟨4, 2, ["out", "#B"], [⟨104, none⟩, ⟨0, some "A"⟩]⟩,
        ⟨5, 4, ["out", "rb+B"], [⟨204, none⟩, ⟨0, some "A"⟩]⟩]⟩ b := by
  obtain ⟨b, hlink⟩ := Chained.run_link
  exact ⟨b, fun order => run_parse rfl rfl Chained.run_lines rfl (hlink order)⟩

end Assembler

end TapeMachine
