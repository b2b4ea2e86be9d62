import TapeMachine.Proofs.EquatedOperands
import TapeMachine.Proofs.ExpressionScript
import TapeMachine.Proofs.SplicedLines

/-!
# Values of expressions

An expression on a line is evaluated with the labels and the equates that are known there, by
a script language of which no more is assumed than that it evaluates such expressions. A whole
number that fits into a word leaves the line as a decimal numeral, and the numeral is read back
as this number, behind every mark. Any other value is an error of the line, and nothing is cut
off to make it fit.
-/

namespace TapeMachine

namespace Numeral

/-- The digits of a number in base ten. -/
private theorem map_digitChar_digitsIn (n : Nat) :
    (digitsIn 10 n).map Nat.digitChar = Nat.toDigits 10 n := by
  induction n using Nat.strongRecOn with
  | ind n ih =>
    by_cases hlt : n < 10
    · rw [Nat.toDigits_of_lt_base hlt, digitsIn]
      by_cases hn : n = 0
      · rw [if_pos hn, hn]
        rfl
      · rw [if_neg hn, Nat.digits_of_lt 10 n hn hlt]
        rfl
    · have hlast : digitsIn 10 n = digitsIn 10 (n / 10) ++ [n % 10] := by
        rw [digitsIn, digitsIn, if_neg (by omega), if_neg (by omega),
          Nat.digits_def' (by decide) (by omega), List.reverse_cons]
      rw [Nat.toDigits_of_base_le (by decide) (by omega), hlast, List.map_append,
        ih (n / 10) (by omega), List.map_singleton]

/-- The decimal text of a word is one way to write it. -/
private theorem text_inRadix_decimal (w : Word) :
    (Written.inRadix .decimal w).text = (ofWord w).toList := by
  have hsign : (Sign.ofInt w.toInt).text = if w.toInt < 0 then ['-'] else [] := by
    unfold Sign.ofInt
    split <;> rfl
  rw [toList_ofWord, ← map_digitChar_digitsIn, ← hsign, Written.text, List.append_assoc]
  rfl

/-- What is written for a word is read as this word. -/
private theorem readAnnounced_ofWord (w : Word) : readAnnounced (ofWord w).toList = .value w := by
  rw [← text_inRadix_decimal]
  exact (Written.inRadix .decimal w).readAnnounced_text

/-- What is written for a word is written for its value. -/
theorem ofWord_ofInt {n : Int} (hlow : -(Word.half : Int) ≤ n) (hhigh : n < Word.half) :
    ofWord (Int64.ofInt n) = ofInt n := by
  rw [ofWord, Int64.toInt_ofInt_of_le hlow hhigh]

end Numeral

namespace Operand

/-- The number of a word is a term without a label. -/
theorem term_ofWord (w : Word) : term (Numeral.ofWord w) = .ok ⟨w, none⟩ := by
  rw [term, Numeral.readAnnounced_ofWord]

/-- The mode of a number in this form, and its value there. -/
def Form.number : Form → Word → Mode × Word
  | bare, w => (.position, w)
  | immediate, w => (.immediate, w)
  | above, w => (.relative, w)
  | below, w => (.relative, -w)

/-- An operand of any form can be a number. -/
private theorem Form.operand_number (form : Form) (w : Word) :
    form.operand ⟨w, none⟩ = .ok ((form.number w).1, ⟨(form.number w).2, none⟩) := by
  cases form <;> rfl

end Operand

namespace Literal

/-- What comes of an expression is a whole number that fits into a word. -/
def Valued (result : Except Script.Error Script.Value) (n : Int) : Prop :=
  result = .ok (.int n) ∧ -(Word.half : Int) ≤ n ∧ n < Word.half

/-- What is wrong with any other expression: its evaluation, or else its value. -/
inductive Refused (expr : List Char) : Except Script.Error Script.Value → AssemblyError → Prop
  | evaluation (e : Script.Error) : Refused expr (.error e) (.expression e)
  | value {v : Script.Value} (hv : ∀ n, ¬ Valued (.ok v) n) :
    Refused expr (.ok v) (.notWord (String.ofList expr))

/-- Whatever comes of an expression has a number or is refused. -/
theorem valued_or_refused (expr : List Char) (result : Except Script.Error Script.Value) :
    (∃ n, Valued result n) ∨ ∃ e, Refused expr result e := by
  by_cases h : ∃ n, Valued result n
  · exact .inl h
  · refine .inr ?_
    cases result with
    | error e => exact ⟨_, .evaluation e⟩
    | ok v => exact ⟨_, .value fun n hn => h ⟨n, hn⟩⟩

section

variable {script : Script} {supported : List Char → Prop}
  {value : (String → Option Int) → List Char → Except Script.Error Script.Value}
  {given : String → Option Int} {expr : List Char}

/-- An expression with a number is this number as a word. -/
theorem wordOf_of_valued (hscript : script.Evaluates supported value) (hexpr : supported expr)
    {n : Int} (hn : Valued (value (Script.withoutResult given) expr) n) :
    wordOf script given expr = .ok (Int64.ofInt n) := by
  obtain ⟨hvalue, hrange⟩ := hn
  obtain ⟨assigned, hrun, hassigned⟩ := hscript.assign hexpr hvalue
  unfold wordOf
  rw [hrun]
  dsimp only
  rw [hassigned]
  exact if_pos hrange

/-- An expression that is refused is no word. -/
theorem wordOf_of_refused (hscript : script.Evaluates supported value) (hexpr : supported expr)
    {e : AssemblyError} (he : Refused expr (value (Script.withoutResult given) expr) e) :
    wordOf script given expr = .error e := by
  unfold wordOf
  generalize hresult : value (Script.withoutResult given) expr = result at he
  cases he with
  | evaluation e => rw [hscript.error hexpr hresult]
  | @value v hv =>
    obtain ⟨assigned, hrun, hassigned⟩ := hscript.assign hexpr hresult
    rw [hrun]
    dsimp only
    rw [hassigned]
    cases v with
    | int n => exact if_neg fun hn => hv n ⟨rfl, hn⟩
    | other => rfl

end

end Literal

namespace Assembler

open Literal (Formula lineText Valued Refused)

/-! ## The names of a line -/

/-- What names stand for in expressions. -/
def names (a : Assembler) : String → Option Int := Script.withoutResult a.meaning

/-- A name stands for the address of its label, or else for the number that its equate spells.
The result name stands for nothing. -/
theorem names_eq_some_iff (a : Assembler) (name : String) (n : Int) :
    a.names name = some n ↔ name ≠ Literal.resultName ∧
      ((∃ address, a.labels[name]? = some address ∧ n = address.toInt) ∨
        a.labels[name]? = none ∧ ∃ text w, a.equates[name]? = some text ∧
          Numeral.readAnnounced text.toList = .value w ∧ n = w.toInt) := by
  unfold names Script.withoutResult
  by_cases hresult : name = Literal.resultName
  · simp [hresult]
  rw [if_neg hresult]
  unfold meaning
  cases hlabel : a.labels[name]? with
  | some address => simp [hresult, eq_comm]
  | none =>
    cases htext : a.equates[name]? with
    | none => simp
    | some text =>
      cases hnumeral : Numeral.readAnnounced text.toList with
      | value w => simp [hresult, hnumeral, Numeral.Reading.word?, eq_comm]
      | overflow w => simp [hnumeral, Numeral.Reading.word?]
      | malformed => simp [hnumeral, Numeral.Reading.word?]

/-! ## Numbers on a line -/

/-- A numeral is read as its number behind every mark. -/
theorem operandOf_number {a : Assembler} {n : Int} (hlow : -(Word.half : Int) ≤ n)
    (hhigh : n < Word.half) {form : Operand.Form} (hnumeral : a.equates[Numeral.ofInt n]? = none)
    (hword : a.equates[form.mark ++ Numeral.ofInt n]? = none) :
    a.operandOf (form.mark ++ Numeral.ofInt n) =
      .ok ((form.number (Int64.ofInt n)).1, ⟨(form.number (Int64.ofInt n)).2, none⟩) := by
  rw [← Numeral.ofWord_ofInt hlow hhigh] at hnumeral hword ⊢
  generalize Int64.ofInt n = w at hnumeral hword ⊢
  have hterm := Operand.term_ofWord w
  have hparts : Operand.parts (form.mark ++ Numeral.ofWord w) = (form, Numeral.ofWord w) := by
    by_cases hform : form = .bare
    · rw [hform]
      exact String.empty_append ▸ Operand.parts_of_term hterm
    · exact Operand.parts_mark_append hform _
  have hbase : form.mark ++ Numeral.ofWord w ≠ "rb" := by
    intro h
    have hname : ("rb" : String) = Numeral.ofWord w := by
      rw [h] at hparts
      exact congrArg Prod.snd hparts
    rw [← hname] at hterm
    cases hterm
  rw [operandOf, substitute, hword, Option.getD_none, Operand.read_eq hbase, hparts,
    Operand.resolve, hnumeral, Option.getD_none, hterm]
  exact form.operand_number w

/-- An expression that is an operand of a line: in front of it stands the mark of its form, at
the start of a word, and behind it the word ends. -/
structure OperandAt (front : List Char) (fs before : List Formula) (f : Formula)
    (behind : List Formula) (pre : List Char) (form : Operand.Form) : Prop where
  split : fs = before ++ f :: behind
  mark : lineText front before = pre ++ form.mark.toList
  starts : EndsWord pre
  ends : StartsGap (lineText f.behind behind)

variable {a : Assembler} {front pre : List Char} {fs before behind : List Formula} {f : Formula}
  {form : Operand.Form} {n : Int}

/-- A mark has no separators, and no character that begins or ends an expression. -/
private theorem mark_spec (form : Operand.Form) :
    (∀ c ∈ form.mark.toList, isSeparator c = false) ∧
      ∀ c ∈ form.mark.toList, c ≠ '$' ∧ c ≠ ')' ∧ c ≠ '\'' := by
  have hall : (form.mark.toList.all fun c =>
      !isSeparator c && (c != '$' && (c != ')' && c != '\''))) = true := by
    cases form <;> decide
  have hmem (c : Char) (hc : c ∈ form.mark.toList) :
      isSeparator c = false ∧ c ≠ '$' ∧ c ≠ ')' ∧ c ≠ '\'' := by
    simpa only [Bool.and_eq_true, Bool.not_eq_true', bne_iff_ne] using
      List.all_eq_true.mp hall c hc
  exact ⟨fun c hc => (hmem c hc).1, fun c hc => (hmem c hc).2⟩

/-- The word of an operand, among the words of the line. -/
theorem OperandAt.wordsOf (h : OperandAt front fs before f behind pre form)
    (hfront : '(' ∉ front) (hfs : ∀ g ∈ fs, ∃ w, a.wordOf g.expr = .ok w) {w : Word}
    (hf : a.wordOf f.expr = .ok w) :
    ∃ wordsBefore wordsBehind, a.wordsOf (String.ofList pre) = .ok wordsBefore ∧
      a.wordsOf (String.ofList (lineText f.behind behind)) = .ok wordsBehind ∧
      a.wordsOf (String.ofList (lineText front fs)) =
        .ok (wordsBefore ++ (form.mark ++ Numeral.ofWord w) :: wordsBehind) := by
  obtain ⟨rfl, hmark, hstarts, hends⟩ := h
  obtain ⟨hword, hplain⟩ := mark_spec form
  have hpre : (Literal.spliced a.wordOf (Literal.characters pre)).2 = none := by
    have hbefore : (Literal.spliced a.wordOf
        (Literal.characters (lineText front before))).2 = none :=
      Literal.spliced_lineText hfront fun g hg => hfs g (List.mem_append_left _ hg)
    rwa [hmark, Literal.spliced_characters_append hplain] at hbefore
  have hpost : (Literal.spliced a.wordOf
      (Literal.characters (lineText f.behind behind))).2 = none :=
    Literal.spliced_lineText f.behind_open fun g hg => hfs g (by simp [hg])
  refine ⟨_, _, wordsOf_eq_ok_iff.mpr ⟨hpre, rfl⟩, wordsOf_eq_ok_iff.mpr ⟨hpost, rfl⟩, ?_⟩
  rw [Literal.lineText_append, hmark,
    wordsOf_expr hstarts hends hword hplain f.expr_dollar f.expr_quote
      (Literal.not_mem_takeWhile_lineText f.behind_close behind)
      (wordsOf_eq_ok_iff.mpr ⟨hpre, rfl⟩) (wordsOf_eq_ok_iff.mpr ⟨hpost, rfl⟩) hf,
    String.ofList_append, String.ofList_toList, String.ofList_toList]

/-- A line that fails before it is taken apart changes nothing but the number of the line. -/
theorem run_readLine_of_wordsOf_error {number : Nat} {line : String} {e : AssemblyError}
    (h : (a.numbered number).wordsOf line = .error e) (depth : Nat) :
    (readLine depth number line).run a = .error e (a.numbered number) := by
  obtain ⟨_, hcall⟩ := exists_readLine_eq depth
  rw [hcall]
  unfold readLineWith
  simp only [liftM_pass]
  rw [EStateM.run_bind, run_setLine]
  dsimp only
  rw [EStateM.run_bind, Course.run_readWords, h]

/-! ## A line with two expressions -/

namespace Located

/-- An assembler with a label, for the language of this library. -/
def start : Assembler :=
  { fresh {} with labels := (∅ : Table Word).insert "x" 40, script := Expr.script }

/-- The assembler at the fourth line. -/
def noted : Assembler := start.numbered 4

/-- Only equates were read, and none of them is an operation. -/
theorem bare_noted : Bare noted where
  macros := rfl
  unbound := (Bare.fresh.numbered 4).unbound

/-- A sum of the label, the number of the line and a number. -/
def sum : Formula where
  expr := "x+LINENO-49".toList
  behind := ", rb-".toList

/-- The smallest word. -/
def power : Formula where
  expr := "-(1<<63)".toList
  behind := ", 3".toList

/-- The values of the names. -/
private theorem names_noted : noted.names "x" = some 40 ∧ noted.names "LINENO" = some 4 := by
  have hlabels (name : String) (hname : name ≠ "x") : noted.labels[name]? = none := by
    change ((∅ : Table Word).insert "x" 40)[name]? = none
    rw [Std.ExtTreeMap.getElem?_insert, if_neg (by simpa using hname.symm)]
    exact Std.ExtTreeMap.getElem?_empty
  refine ⟨(noted.names_eq_some_iff _ _).mpr ⟨by decide, .inl ⟨40, ?_, rfl⟩⟩,
    (noted.names_eq_some_iff _ _).mpr
      ⟨by decide, .inr ⟨hlabels _ (by decide), "4", 4, ?_, rfl, rfl⟩⟩⟩
  · exact Std.ExtTreeMap.getElem?_insert_self
  · exact Std.ExtTreeMap.getElem?_insert_self

/-- The tokens of the assignment. -/
def sumTokens : List Expr.Token :=
  [.name "rc", .symbol "=", .name "x", .symbol "+", .name "LINENO", .symbol "-", .int 49, .newline]

/-- The statement that the tokens are. -/
def sumScript : List Expr.Statement :=
  [.assign (.name "rc") (.binary .sub (.binary .add (.name "x") (.name "LINENO")) (.int 49))]

/-- The sum is negative. -/
theorem valued_sum : Valued (Expr.value noted.names sum.expr) (-5) := by
  obtain ⟨hx, hline⟩ := names_noted
  have htext : Literal.assignment sum.expr =
      ['r', 'c', '=', 'x', '+', 'L', 'I', 'N', 'E', 'N', 'O', '-', '4', '9', '\n'] := rfl
  have hscan : Expr.Token.scan?
      ['r', 'c', '=', 'x', '+', 'L', 'I', 'N', 'E', 'N', 'O', '-', '4', '9', '\n'] =
        some sumTokens := rfl
  have hresolves : Expr.resolves (fun name => (noted.names name).map .int) sumScript = true := by
    simp [Expr.resolves, sumScript, Expr.assigned, Expr.names, Expr.Statement.target?,
      Expr.Statement.expr, Expr.name?, Expr.callsPassable, hx, hline]
  have hrun : Expr.runFrom? (fun name => (noted.names name).map .int) (Expr.assigned sumScript) []
      sumScript = some [("rc", .int (-5))] := by
    simp [Expr.runFrom?, sumScript, Expr.assigned, Expr.Statement.target?, Expr.Statement.expr,
      Expr.name?, Expr.eval?, Expr.meaning, hx, hline, Expr.Value.binary?, Expr.Value.add?,
      Expr.Value.sub?]
  exact ⟨Expr.value_eq_ok htext hscan rfl hresolves hrun rfl, by decide, by decide⟩

/-- The tokens of the assignment. -/
def powerTokens : List Expr.Token :=
  [.name "rc", .symbol "=", .symbol "-", .symbol "(", .int 1, .symbol "<<", .int 63, .symbol ")",
    .newline]

/-- The statement that the tokens are. -/
def powerScript : List Expr.Statement :=
  [.assign (.name "rc") (.unary .minus (.binary .shiftLeft (.int 1) (.int 63)))]

/-- The power is the least word. -/
theorem valued_power : Valued (Expr.value noted.names power.expr) (-9223372036854775808) := by
  have htext : Literal.assignment power.expr =
      ['r', 'c', '=', '-', '(', '1', '<', '<', '6', '3', ')', '\n'] := rfl
  have hscan : Expr.Token.scan? ['r', 'c', '=', '-', '(', '1', '<', '<', '6', '3', ')', '\n'] =
      some powerTokens := rfl
  have hrun : Expr.runFrom? (fun name => (noted.names name).map .int)
      (Expr.assigned powerScript) [] powerScript =
        some [("rc", .int (-9223372036854775808))] := rfl
  exact ⟨Expr.value_eq_ok htext hscan rfl rfl hrun rfl, by decide, by decide⟩

/-- The first number that does not fit into a word. -/
def overflow : Formula where
  expr := "1<<63".toList
  behind := []

/-- The tokens of the assignment. -/
def overflowTokens : List Expr.Token :=
  [.name "rc", .symbol "=", .int 1, .symbol "<<", .int 63, .newline]

/-- The statement that the tokens are. -/
def overflowScript : List Expr.Statement :=
  [.assign (.name "rc") (.binary .shiftLeft (.int 1) (.int 63))]

/-- A power beyond the words is refused. -/
private theorem refused_overflow :
    Refused overflow.expr (Expr.value noted.names overflow.expr) (.notWord "1<<63") := by
  have htext : Literal.assignment overflow.expr =
      ['r', 'c', '=', '1', '<', '<', '6', '3', '\n'] := rfl
  have hscan : Expr.Token.scan? ['r', 'c', '=', '1', '<', '<', '6', '3', '\n'] =
      some overflowTokens := rfl
  have hrun : Expr.runFrom? (fun name => (noted.names name).map .int)
      (Expr.assigned overflowScript) [] overflowScript =
        some [("rc", .int 9223372036854775808)] := rfl
  rw [Expr.value_eq_ok htext hscan rfl rfl hrun rfl]
  refine .value fun n hn => ?_
  obtain ⟨hn, _, hhigh⟩ := hn
  cases hn
  exact absurd hhigh (by decide)

/-- The second expression is an operand. -/
private theorem operandAt_power : OperandAt "add #".toList [sum, power] [sum] power []
    "add #$(x+LINENO-49), ".toList .below where
  split := rfl
  mark := by decide
  starts := .inr ⟨"add #$(x+LINENO-49),".toList, ' ', by decide, rfl⟩
  ends := .inr ⟨',', " 3".toList, by decide, rfl⟩

end Located

/-! ## A line with a marked name -/

namespace Marked

/-- A source with an equate that is named like a number behind a mark. -/
def source : Source := { text := ".equ #5 7\nout #$(2+3)" }

/-- The expression of the operand. -/
def sum : Formula where
  expr := "2+3".toList
  behind := []

/-- The assembler at the start, for the language of this library. -/
def start : Assembler := { script := Expr.script }

/-- The assembler behind the equate. -/
def equateRead : Assembler :=
  { start.fresh.numbered 1 with equates := (start.fresh.numbered 1).equates.insert "#5" "7" }

/-- The assembler at the expression. -/
def noted : Assembler := equateRead.numbered 2

/-- The entry of the line. -/
def entry : Entry := ⟨2, 0, ["out", "7"], [⟨4, none⟩, ⟨7, none⟩]⟩

/-- The equates at the expression. -/
theorem lists_noted : Lists (pairsAt 2 [("#5", "7"), (lineName, "1")]) noted.equates :=
  lists_numbered 2 _ (Lists.insert lists_firstLine "#5" "7")

/-- The equate is known at the expression. -/
theorem equate_noted : noted.equates["#5"]? = some "7" := by
  change (equateRead.equates.insert lineName "2")["#5"]? = some "7"
  rw [Std.ExtTreeMap.getElem?_insert, if_neg (by decide)]
  exact Std.ExtTreeMap.getElem?_insert_self

/-- The tokens of the assignment. -/
def sumTokens : List Expr.Token :=
  [.name "rc", .symbol "=", .int 2, .symbol "+", .int 3, .newline]

/-- The statement that the tokens are. -/
def sumScript : List Expr.Statement := [.assign (.name "rc") (.binary .add (.int 2) (.int 3))]

/-- The value of the expression. -/
theorem valued_sum : Valued (Expr.value noted.names sum.expr) 5 := by
  have htext : Literal.assignment sum.expr = ['r', 'c', '=', '2', '+', '3', '\n'] := rfl
  have hscan : Expr.Token.scan? ['r', 'c', '=', '2', '+', '3', '\n'] = some sumTokens := rfl
  have hrun : Expr.runFrom? (fun name => (noted.names name).map .int) (Expr.assigned sumScript) []
      sumScript = some [("rc", .int 5)] := rfl
  exact ⟨Expr.value_eq_ok htext hscan rfl rfl hrun rfl, by decide, by decide⟩

/-- The expression is an operand behind a mark. -/
private theorem operandAt_sum : OperandAt "out #".toList [sum] [] sum
    [] "out ".toList .immediate where
  split := rfl
  mark := by decide
  starts := .inr ⟨"out".toList, ' ', by decide, rfl⟩
  ends := .inl rfl

/-- The value is put behind the mark. -/
theorem wordsOf_line : noted.wordsOf "out #$(2+3)" = .ok ["out", "#5"] := by
  have hfront : noted.wordsOf "out " = .ok ["out"] := wordsOf_of_not_mem (by decide) (by decide) _
  have hbehind : noted.wordsOf "" = .ok [] := wordsOf_of_not_mem (by decide) (by decide) _
  have hsum : noted.wordOf sum.expr = .ok 5 :=
    Literal.wordOf_of_valued Expr.evaluates_script (by decide) valued_sum
  obtain ⟨wordsBefore, wordsBehind, hpre, hpost, hline⟩ := operandAt_sum.wordsOf (by decide)
    (List.forall_mem_singleton.mpr ⟨_, hsum⟩) hsum
  obtain rfl : ["out"] = wordsBefore := Except.ok.inj (hfront.symm.trans hpre)
  obtain rfl : [] = wordsBehind := Except.ok.inj (hbehind.symm.trans hpost)
  exact hline

/-- The first line is an equate. -/
private theorem run_equate (depth : Nat) :
    (readLine depth 1 ".equ #5 7").run start.fresh = .ok () equateRead := by
  have hwords : (start.fresh.numbered 1).wordsOf ".equ #5 7" = .ok [".equ", "#5", "7"] :=
    wordsOf_of_not_mem (by decide) (by decide) _
  have hnone : (start.fresh.numbered 1).equates["#5"]? = none :=
    Lists.eq_none lists_firstLine (by decide)
  exact run_readLine_of_equate hwords hnone depth

/-- The text of the equate takes the place of the mark and the number. -/
theorem run_line (depth : Nat) :
    (readLine depth 2 "out #$(2+3)").run equateRead = .ok () (noted.added entry) := by
  have hwrites : noted.Writes "out #$(2+3)" [] .output ["#5"] :=
    ⟨⟨_, wordsOf_line, rfl, rfl⟩, New.nil _, Lists.eq_none lists_noted (by decide),
      Std.ExtTreeMap.getElem?_empty⟩
  have hword : ["#5"].map noted.substitute = ["7"] := by
    rw [List.map_singleton, substitute, equate_noted]
    rfl
  have hoperand : noted.operandOf "#5" = .ok (.position, ⟨7, none⟩) := by
    rw [operandOf_of_equate equate_noted (Operand.term_ofWord 7) (by decide), Operand.resolve,
      Lists.eq_none lists_noted (by decide)]
    rfl
  refine (hwrites.run_readLine_iff depth).mpr
    ⟨[_], .cons hoperand .nil, rfl, fun h => absurd h (by decide), ?_⟩
  change _ = (noted.withLabels []).added ⟨2, _, "out" :: ["#5"].map noted.substitute, _⟩
  rw [hword]
  rfl

/-- The source is read to its end. -/
theorem run_lines :
    (readLines {} source.lines).run start.fresh =
      .ok ⟨2, "out #$(2+3)", none⟩ (noted.added entry) := by
  have hlines : source.lines = [".equ #5 7", "out #$(2+3)"] := rfl
  have hequate : (readSourceLine 1 ".equ #5 7" none).run start.fresh = .ok none equateRead :=
    run_readSourceLine_of_ne (by decide) (by decide) (run_equate maxDepth)
  have hline : (readSourceLine 2 "out #$(2+3)" none).run equateRead =
      .ok none (noted.added entry) :=
    run_readSourceLine_of_ne (by decide) (by decide) (run_line maxDepth)
  have hfirst : stripped ".equ #5 7" = ".equ #5 7" := rfl
  have hsecond : stripped "out #$(2+3)" = "out #$(2+3)" := rfl
  rw [hlines, readLines, hfirst, EStateM.run_bind, Course.run_within, hequate]
  dsimp only
  rw [readLines, hsecond, EStateM.run_bind, Course.run_within, hline]
  rfl

/-- Nothing is left to be linked. -/
theorem run_link (order : LinkOrder) :
    (link order).run (noted.added entry) = .ok ⟨#[entry]⟩ (noted.added entry) := by
  have hentry : Entry.Linked (noted.added entry).labels entry entry :=
    ⟨entry.terms, .cons (.plain 4) (.cons (.plain 7) .nil), rfl⟩
  exact link_eq_ok_iff.mpr ⟨.cons hentry .nil, rfl⟩

end Marked

/-! ## Brackets with a dollar sign in them -/

namespace Dollared

/-- A source with a dollar sign between the brackets behind another one. -/
def source : Source := { text := "out $(1$2)" }

/-- The assembler at the start, for the language of this library. -/
def start : Assembler := { script := Expr.script }

/-- What stands between the brackets is no expression of the language. -/
theorem value_inside (names : String → Option Int) :
    Expr.value names "1$2".toList = .error ⟨.malformed, Expr.message .malformed⟩ := rfl

/-- With a dollar sign between them, the parentheses enclose no expression, and nothing is
replaced. -/
theorem wordsOf_line (a : Assembler) : a.wordsOf "out $(1$2)" = .ok ["out", "$(1$2)"] := by
  unfold wordsOf
  rw [Literal.characters_of_not_mem (by decide)]
  rfl

/-- What is not replaced is no number. -/
theorem run_line :
    (readSourceLine 1 "out $(1$2)" none).run start.fresh =
      .error (.notNumber "$(1$2)") (start.fresh.numbered 1) := by
  have hbare : Bare (start.fresh.numbered 1) :=
    (Bare.fresh_of fun _ _ => Std.ExtTreeMap.getElem?_empty).numbered 1
  have hassemble : Instruction.assemble (start.fresh.numbered 1).equates ["out", "$(1$2)"] =
      .error (.notNumber "$(1$2)") := by
    rw [hbare.assemble_eq (by decide)]
    rfl
  obtain ⟨_, hcall⟩ := exists_readLine_eq maxDepth
  refine run_readSourceLine_of_error (by decide) (by decide) ?_
  rw [hcall, run_readLineWith (wordsOf_line _) (by decide) (run_defineLabels_of_none rfl _ _)
    (hbare.map_substitute (by decide)) Std.ExtTreeMap.getElem?_empty]
  exact run_emit_of_error hassemble 1

end Dollared

/-! ## What an expression is on its line -/

/-- The expressions of a line are exact. Let brackets stand on a line only where expressions do,
without quotes and dollar signs in them, and let the script language evaluate these expressions.
Names stand for what the labels and equates say when the line begins, once its number is noted.
If the value of an expression is not a whole number that fits into a word, the last such
expression decides the error of the line, and nothing is added to the program. Otherwise an
expression that is an operand, bare or behind a mark, is a word of the line, with the decimal
numeral of its value. If no equate is named by this numeral or by this word, the operand is the
value in its mode, and the opposite one behind `rb-`. -/
theorem expressions_exact (a : Assembler) {supported : List Char → Prop}
    {value : (String → Option Int) → List Char → Except Script.Error Script.Value}
    (hscript : a.script.Evaluates supported value) (depth number : Nat) (front : List Char)
    (fs : List Formula) (hfront : '(' ∉ front) (hsupported : ∀ g ∈ fs, supported g.expr) :
    let noted := a.numbered number
    let result (g : Formula) := value noted.names g.expr
    (∀ name n, noted.names name = some n ↔ name ≠ Literal.resultName ∧
      ((∃ address, a.labels[name]? = some address ∧ n = address.toInt) ∨
        a.labels[name]? = none ∧ ∃ text w, noted.equates[name]? = some text ∧
          Numeral.readAnnounced text.toList = .value w ∧ n = w.toInt)) ∧
    (∀ g ∈ fs, (∃ n, Valued (result g) n) ∨ ∃ e, Refused g.expr (result g) e) ∧
    (∀ before f behind e, fs = before ++ f :: behind → Refused f.expr (result f) e →
      (∀ g ∈ behind, ∃ n, Valued (result g) n) →
      (readLine depth number (String.ofList (lineText front fs))).run a = .error e noted) ∧
    ((∀ g ∈ fs, ∃ n, Valued (result g) n) →
      ∀ before f behind pre form n, OperandAt front fs before f behind pre form →
        Valued (result f) n →
        ∃ wordsBefore wordsBehind,
          noted.wordsOf (String.ofList pre) = .ok wordsBefore ∧
          noted.wordsOf (String.ofList (lineText f.behind behind)) = .ok wordsBehind ∧
          noted.wordsOf (String.ofList (lineText front fs)) =
            .ok (wordsBefore ++ (form.mark ++ Numeral.ofInt n) :: wordsBehind) ∧
          (noted.equates[Numeral.ofInt n]? = none →
            noted.equates[form.mark ++ Numeral.ofInt n]? = none →
            noted.operandOf (form.mark ++ Numeral.ofInt n) =
              .ok ((form.number (Int64.ofInt n)).1, ⟨(form.number (Int64.ofInt n)).2, none⟩) ∧
            ∀ labels op args b,
              noted.Writes (String.ofList (lineText front fs)) labels op
                (args ++ (form.mark ++ Numeral.ofInt n) :: wordsBehind) →
              (readLine depth number (String.ofList (lineText front fs))).run a = .ok () b →
              ∃ words modes terms, b.entries = a.entries.push
                  ⟨number, a.here, words, ⟨Instruction.encode op modes, none⟩ :: terms⟩ ∧
                modes[args.length]? = some (form.number (Int64.ofInt n)).1 ∧
                terms[args.length]? = some ⟨(form.number (Int64.ofInt n)).2, none⟩)) := by
  intro noted result
  have hword {g : Formula} (hg : g ∈ fs) {n : Int} (hn : Valued (result g) n) :
      noted.wordOf g.expr = .ok (Int64.ofInt n) :=
    Literal.wordOf_of_valued hscript (hsupported g hg) hn
  refine ⟨noted.names_eq_some_iff, fun g _ => Literal.valued_or_refused _ _, ?_, ?_⟩
  · rintro before f behind e rfl hrefused hbehind
    refine run_readLine_of_wordsOf_error (wordsOf_eq_error ?_) depth
    have herror : noted.wordOf f.expr = .error e :=
      Literal.wordOf_of_refused hscript (hsupported f (by simp)) hrefused
    refine Literal.spliced_lineText_error herror fun g hg => ?_
    obtain ⟨n, hn⟩ := hbehind g hg
    exact ⟨_, hword (by simp [hg]) hn⟩
  · intro hfs before f behind pre form n hplace hf
    have hwords : ∀ g ∈ fs, ∃ w, noted.wordOf g.expr = .ok w :=
      fun g hg => (hfs g hg).elim fun n hn => ⟨_, hword hg hn⟩
    have hmem : f ∈ fs := hplace.split ▸ List.mem_append_right before List.mem_cons_self
    obtain ⟨wordsBefore, wordsBehind, hpre, hpost, hline⟩ :=
      hplace.wordsOf hfront hwords (hword hmem hf)
    rw [Numeral.ofWord_ofInt hf.2.1 hf.2.2] at hline
    refine ⟨wordsBefore, wordsBehind, hpre, hpost, hline, fun hnumeral hequate => ?_⟩
    have hoperand := operandOf_number hf.2.1 hf.2.2 hnumeral hequate
    exact ⟨hoperand, fun labels op args b hwrites hrun =>
      hwrites.exists_parameters hrun hoperand⟩

/-- A line with two expressions, of which the second one is the smallest word behind `rb-`, and a
line with a number that is one too large. -/
theorem expressions_exact_located :
    '(' ∉ "add #".toList ∧
    Located.start.script.Evaluates (fun expr => expr.head? ≠ some '=') Expr.value ∧
    (∃ wordsBefore wordsBehind,
      Located.noted.wordsOf "add #$(x+LINENO-49), rb-$(-(1<<63)), 3" =
        .ok (wordsBefore ++ "rb--9223372036854775808" :: wordsBehind) ∧
      Located.noted.operandOf "rb--9223372036854775808" =
        .ok (.relative, ⟨-9223372036854775808, none⟩)) ∧
    (readLine 0 4 "out #$(1<<63)").run Located.start =
      .error (.notWord "1<<63") Located.noted := by
  have hline : String.ofList (lineText "add #".toList [Located.sum, Located.power]) =
      "add #$(x+LINENO-49), rb-$(-(1<<63)), 3" := rfl
  have hword : Operand.Form.below.mark ++ Numeral.ofInt (-9223372036854775808) =
      "rb--9223372036854775808" := by decide
  refine ⟨by decide, Expr.evaluates_script, ?_, ?_⟩
  · obtain ⟨_, _, _, hexact⟩ := expressions_exact Located.start Expr.evaluates_script 0 4
      "add #".toList [Located.sum, Located.power] (by decide) (by decide)
    obtain ⟨wordsBefore, wordsBehind, _, _, hwords, hoperand⟩ := hexact
      (List.forall_mem_cons.mpr ⟨⟨_, Located.valued_sum⟩,
        List.forall_mem_singleton.mpr ⟨_, Located.valued_power⟩⟩)
      _ _ _ _ _ _ Located.operandAt_power Located.valued_power
    rw [hword, hline] at hwords
    rw [hword] at hoperand
    exact ⟨wordsBefore, wordsBehind, hwords,
      (hoperand (Located.bare_noted.unbound _ (by decide))
        (Located.bare_noted.unbound _ (by decide))).1⟩
  · obtain ⟨_, _, hfails, _⟩ := expressions_exact Located.start Expr.evaluates_script 0 4
      "out #".toList [Located.overflow] (by decide) (by decide)
    exact hfails [] Located.overflow [] _ rfl Located.refused_overflow
      fun g hg => absurd hg List.not_mem_nil

/-- An equate may be named like the number of an expression behind a mark. Then its text takes
the place of the operand, although no equate is named like the number itself. And brackets with
a dollar sign in them are no expression: their text is refused as a number, although the language
would not have accepted it either. -/
theorem expression_replaced :
    (Valued (Expr.value Marked.noted.names "2+3".toList) 5 ∧ Marked.noted.equates["5"]? = none ∧
      ∃ b, ∀ order, (parse order Marked.source).run Marked.start =
        .ok ⟨#[⟨2, 0, ["out", "7"], [⟨4, none⟩, ⟨7, none⟩]⟩]⟩ b) ∧
    ∃ b, (Expr.value b.names "1$2".toList = .error ⟨.malformed, Expr.message .malformed⟩) ∧
      ∀ order, (parse order Dollared.source).run Dollared.start =
        .error (.atLine 1 "out $(1$2)" (.notNumber "$(1$2)")) b := by
  refine ⟨⟨Marked.valued_sum, Lists.eq_none Marked.lists_noted (by decide), _, fun order =>
    run_parse rfl rfl Marked.run_lines rfl (Marked.run_link order)⟩,
    Dollared.start.fresh.numbered 1, Dollared.value_inside _, fun order => ?_⟩
  have hlines : Dollared.source.lines = ["out $(1$2)"] := rfl
  have hstripped : stripped "out $(1$2)" = "out $(1$2)" := rfl
  rw [Course.run_parse_eq, hlines, readLines, hstripped, EStateM.run_bind, Course.run_within,
    Dollared.run_line]

end Assembler

end TapeMachine
