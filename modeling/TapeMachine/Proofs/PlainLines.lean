import Mathlib.Data.List.TakeWhile
import TapeMachine.Proofs.ReadingLayout
import TapeMachine.Proofs.TextParts

/-!
# Plain lines

A line without quotes, dollar signs and comments is read as the words on it. While no
macro is defined and only names in capitals are equated, a line of other words goes
into the listing as it stands.
-/

namespace TapeMachine

namespace Literal

/-- Without a quote there is no character literal. -/
theorem characters_of_not_mem {line : List Char} (hquote : '\'' ∉ line) :
    characters line = line := by
  have hfrom : ∀ done, charactersFrom done line = done.reverse ++ line := by
    induction line with
    | nil => simp [charactersFrom]
    | cons c line ih =>
      intro done
      have hc : c ≠ '\'' := fun h => hquote (h ▸ List.mem_cons_self)
      rw [charactersFrom.eq_def]
      split <;> simp_all
  exact hfrom []

/-- The pieces between dollar signs make up a line again. -/
private theorem eq_append_flatMap_of_pieces {line first : List Char} {pieces : List (List Char)}
    (hpieces : Text.pieces (· == '$') line = first :: pieces) :
    line = first ++ pieces.flatMap ('$' :: ·) := by
  have hjoin (first : List Char) (pieces : List (List Char)) :
      ['$'].intercalate (first :: pieces) = first ++ pieces.flatMap ('$' :: ·) := by
    induction pieces generalizing first with
    | nil => simp
    | cons piece pieces ih =>
      rw [List.intercalate_cons_of_ne_nil (List.cons_ne_nil piece pieces), ih]
      simp
  rw [Text.pieces_eq_splitOnP, ← List.splitOn_eq_splitOnP] at hpieces
  rw [← hjoin, ← hpieces, List.intercalate_splitOn]

/-- Without a bracket behind a dollar sign there is no expression. -/
theorem expressions_of_not_subtext {line : List Char} (hdollar : ¬ ['$', '('] <:+: line)
    (value : List Char → Except AssemblyError Word) : expressions value line = .ok line := by
  have hnone (pieces : List (List Char)) (h : ∀ piece ∈ pieces, bracketed? piece = none) :
      expressionsIn value pieces = (pieces.flatMap ('$' :: ·), none) := by
    induction pieces with
    | nil => rfl
    | cons piece pieces ih =>
      obtain ⟨hpiece, hpieces⟩ := List.forall_mem_cons.mp h
      rw [expressionsIn, ih hpieces, hpiece]
      simp
  unfold expressions
  cases hpieces : Text.pieces (· == '$') line with
  | nil =>
    rw [Text.pieces_eq_splitOnP] at hpieces
    exact absurd hpieces (List.splitOnP_ne_nil _ _)
  | cons first pieces =>
    have hline := eq_append_flatMap_of_pieces hpieces
    dsimp only
    rw [hnone]
    · dsimp only
      rw [← hline]
    · intro piece hpiece
      unfold bracketed?
      split
      · next cs =>
        obtain ⟨before, behind, rfl⟩ := List.append_of_mem hpiece
        refine absurd ⟨first ++ before.flatMap ('$' :: ·), cs ++ behind.flatMap ('$' :: ·), ?_⟩
          hdollar
        rw [hline]
        simp
      · rfl

/-- Without a dollar sign there is no expression. -/
theorem expressions_of_not_mem {line : List Char} (hdollar : '$' ∉ line)
    (value : List Char → Except AssemblyError Word) : expressions value line = .ok line :=
  expressions_of_not_subtext (fun h => hdollar (h.mem List.mem_cons_self)) value

end Literal

namespace Table

variable {α : Type}

/-- Entries of other names do not matter. -/
theorem getElem?_foldl_insert (pairs : List (String × α)) (table : Table α) {name : String}
    (hname : name ∉ pairs.map Prod.fst) :
    (pairs.foldl (fun table entry => table.insert entry.1 entry.2) table)[name]? =
      table[name]? := by
  induction pairs generalizing table with
  | nil => rfl
  | cons entry pairs ih =>
    rw [List.map_cons, List.mem_cons, not_or] at hname
    rw [List.foldl_cons, ih _ hname.2, Std.ExtTreeMap.getElem?_insert]
    exact if_neg (by simpa using fun h => hname.1 h.symm)

/-- Where each name is given once, it has what is given, and else what it had. -/
theorem getElem?_foldl_insert_of_nodup {pairs : List (String × α)}
    (hpairs : (pairs.map Prod.fst).Nodup) (table : Table α) (name : String) :
    (pairs.foldl (fun table entry => table.insert entry.1 entry.2) table)[name]? =
      (pairs.lookup name).or table[name]? := by
  induction pairs generalizing table with
  | nil => rfl
  | cons entry pairs ih =>
    obtain ⟨key, value⟩ := entry
    obtain ⟨hkey, hpairs⟩ := List.nodup_cons.mp hpairs
    rw [List.foldl_cons]
    by_cases hname : name = key
    · subst hname
      rw [getElem?_foldl_insert pairs _ hkey, Std.ExtTreeMap.getElem?_insert_self,
        List.lookup_cons_self, Option.some_or]
    · have hskip : (name == key) = false := by simpa using hname
      rw [ih hpairs, Std.ExtTreeMap.getElem?_insert, if_neg (by simpa using Ne.symm hname),
        List.lookup_cons, hskip]

/-- A table keeps what the other one does not have. -/
theorem getElem?_override {table winner : Table α} {name : String}
    (hname : winner[name]? = none) : (table.override winner)[name]? = table[name]? := by
  refine getElem?_foldl_insert _ _ ?_
  intro hmem
  obtain ⟨⟨key, value⟩, hentry, rfl⟩ := List.mem_map.mp hmem
  rw [Std.ExtTreeMap.mem_toList_iff_getElem?_eq_some] at hentry
  rw [hname] at hentry
  cases hentry

end Table

namespace Assembler

/-! ## Assemblers without definitions -/

/-- Whether a word begins with a capital letter. -/
def isCapital (word : String) : Bool := word.toList.head?.any Char.isUpper

/-- An assembler in which no macro is defined and only names with a capital letter in front
are equated. -/
structure Bare (a : Assembler) : Prop where
  macros : a.macros = ∅
  unbound : ∀ word, isCapital word = false → a.equates[word]? = none

/-- An assembler that has noted the number of a line. -/
def numbered (a : Assembler) (number : Nat) : Assembler :=
  { a with equates := a.equates.insert lineName (Nat.repr number) }

/-- The number of a line is noted. -/
theorem run_setLine (number : Nat) (a : Assembler) :
    (setLine number).run a = .ok () (a.numbered number) := rfl

/-- A word without a capital letter is not among names that have one. -/
theorem not_mem_of_isCapital {word : String} {names : List String}
    (hword : isCapital word = false) (hnames : names.all isCapital = true) : word ∉ names := by
  intro hmem
  rw [List.all_eq_true.mp hnames word hmem] at hword
  cases hword

/-- The instruction set defines names with a capital letter in front. -/
theorem getElem?_defines {word : String} (hword : isCapital word = false) :
    Instruction.defines[word]? = none :=
  Table.getElem?_foldl_insert _ ∅ (not_mem_of_isCapital hword (by decide))

/-- At the beginning the names that were given are equated, and those of the instruction
set. -/
theorem Bare.fresh_of {a : Assembler}
    (ha : ∀ word, isCapital word = false → a.predefined[word]? = none) : Bare a.fresh where
  macros := rfl
  unbound word hword := by
    have hline : (Table.ofPairs [(lineName, "0")])[word]? = none :=
      Table.getElem?_foldl_insert _ ∅ (not_mem_of_isCapital hword (by decide))
    change (initialEquates a.predefined)[word]? = none
    rw [initialEquates, Table.getElem?_override (ha word hword),
      Table.getElem?_override (getElem?_defines hword), hline]

/-- An assembler that has read nothing is bare. -/
theorem Bare.fresh : Bare (fresh {}) := .fresh_of fun _ _ => Std.ExtTreeMap.getElem?_empty

/-- A bare assembler is bare at any line. -/
theorem Bare.numbered {a : Assembler} (ha : Bare a) (number : Nat) : Bare (a.numbered number) where
  macros := ha.macros
  unbound word hword := by
    have hne : lineName ≠ word := by
      rintro rfl
      cases hword
    change (a.equates.insert lineName (Nat.repr number))[word]? = none
    rw [Std.ExtTreeMap.getElem?_insert, if_neg (by simpa using hne), ha.unbound word hword]

/-- An assembler with another entry. -/
def added (a : Assembler) (e : Entry) : Assembler := { a with entries := a.entries.push e }

/-- An entry makes no difference. -/
theorem Bare.added {a : Assembler} (ha : Bare a) (e : Entry) : Bare (a.added e) :=
  ⟨ha.macros, ha.unbound⟩

/-- Labels make no difference. -/
theorem Bare.labelled {a : Assembler} (ha : Bare a) (labels : Table Word) :
    Bare { a with labels } :=
  ⟨ha.macros, ha.unbound⟩

/-- Words that are not equated stand for themselves. -/
theorem map_substitute_of_none {a : Assembler} {words : List String}
    (hwords : ∀ word ∈ words, a.equates[word]? = none) : words.map a.substitute = words := by
  have hword : ∀ word ∈ words, a.substitute word = id word := by
    intro word hmem
    rw [substitute, hwords word hmem]
    rfl
  rw [List.map_congr_left hword, List.map_id]

/-- Words without capital letters stand for themselves. -/
theorem Bare.map_substitute {a : Assembler} (ha : Bare a) {words : List String}
    (hwords : ∀ word ∈ words, isCapital word = false) : words.map a.substitute = words :=
  map_substitute_of_none fun word hword => ha.unbound word (hwords word hword)

/-! ## Statements without capital letters -/

/-- Whether no letter of a word is a capital. -/
def isLower (word : String) : Bool := word.toList.all fun c => !c.isUpper

/-- A word without capital letters does not begin with one. -/
theorem isCapital_of_isLower {word : String} (hword : isLower word = true) :
    isCapital word = false := by
  unfold isLower at hword
  unfold isCapital
  cases hcs : word.toList with
  | nil => rfl
  | cons c cs =>
    rw [hcs, List.all_cons, Bool.and_eq_true] at hword
    simpa using hword.1

/-- Other spellings bring in no capital letters. -/
private theorem isLower_of_mem_unalias {words : List String} (hwords : words.all isLower = true) :
    ∀ word ∈ Instruction.unalias words, isLower word = true := by
  rw [List.all_eq_true] at hwords
  -- The words that stand for themselves are among those of the line.
  have hsame {head : String} {args : List String} (hargs : ∀ word ∈ args, word ∈ words)
      (hhead : isLower head = true) : ∀ word ∈ head :: args, isLower word = true :=
    List.forall_mem_cons.mpr ⟨hhead, fun word hword => hwords word (hargs word hword)⟩
  unfold Instruction.unalias
  split
  · decide
  · exact hsame (fun word => List.mem_cons_of_mem _) (by decide)
  · exact hsame (fun word => List.mem_cons_of_mem _) (by decide)
  · exact List.forall_mem_cons.mpr
      ⟨by decide, hsame (fun word => List.mem_cons_of_mem _) (by decide)⟩
  · next source destination =>
    have hsource := hwords source (by simp)
    have hdestination := hwords destination (by simp)
    simpa [hsource, hdestination] using (by decide : isLower "add" = true ∧ isLower "#0" = true)
  · exact hwords

section

variable {a : Assembler}

/-- Without capital letters a term has no equate in it. -/
theorem Bare.resolve_eq (ha : Bare a) {word : String} (hword : isLower word = true) :
    Operand.resolve a.equates word = Operand.resolve ∅ word := by
  rw [Operand.resolve, Operand.resolve, ha.unbound _ (isCapital_of_isLower hword),
    Std.ExtTreeMap.getElem?_empty]

/-- Without capital letters an operand has no equate in it. -/
theorem Bare.read_eq (ha : Bare a) {word : String} (hword : isLower word = true) :
    Operand.read a.equates word = Operand.read ∅ word := by
  obtain ⟨cs, rfl⟩ : ∃ cs, word = String.ofList cs := ⟨_, String.ofList_toList.symm⟩
  have hrest {ds : List Char} (hds : ds <:+ cs) :
      Operand.resolve a.equates (String.ofList ds) = Operand.resolve ∅ (String.ofList ds) := by
    refine ha.resolve_eq ?_
    unfold isLower at hword ⊢
    rw [String.toList_ofList, List.all_eq_true] at hword ⊢
    exact fun c hc => hword c (hds.mem hc)
  unfold Operand.read
  rw [String.toList_ofList]
  split
  · rw [hrest (List.suffix_append ['#'] _)]
  · rfl
  · rw [hrest (List.suffix_append ['r', 'b', '+'] _)]
  · rw [hrest (List.suffix_append ['r', 'b', '-'] _)]
  · rw [hrest (List.suffix_append [] cs)]

/-- Without capital letters a statement is assembled as if there were no equates. -/
theorem Bare.assemble_eq (ha : Bare a) {words : List String} (hwords : words.all isLower = true) :
    Instruction.assemble a.equates words = Instruction.assemble ∅ words := by
  have hlower := isLower_of_mem_unalias hwords
  unfold Instruction.assemble
  split
  · rfl
  · next args hargs =>
    have hresolve : ∀ word ∈ args, Operand.resolve a.equates word = Operand.resolve ∅ word :=
      fun word hword => ha.resolve_eq (hlower word (hargs ▸ List.mem_cons_of_mem _ hword))
    rw [Instruction.assembleData, Instruction.assembleData, Outcome.mapM_congr hresolve]
  · next name args _ hargs =>
    have hread : ∀ word ∈ args, Operand.read a.equates word = Operand.read ∅ word :=
      fun word hword => ha.read_eq (hlower word (hargs ▸ List.mem_cons_of_mem _ hword))
    simp only [Instruction.assembleOperation, Outcome.mapM_congr hread]

end

/-! ## Lines that are read as they stand -/

/-- The words of a line without literals are its fields. -/
theorem wordsOf_of_not_mem {line : String} (hquote : '\'' ∉ line.toList)
    (hdollar : '$' ∉ line.toList) (a : Assembler) :
    a.wordsOf line = .ok ((Text.fieldsBy isSeparator line.toList).map String.ofList) := by
  unfold wordsOf
  rw [Literal.characters_of_not_mem hquote, Literal.expressions_of_not_mem hdollar]
  rfl

/-- A line is emitted once its words, its labels and its equates are known. -/
theorem run_readLineWith {call : Macro → String → List String → Pass Unit} {number : Nat}
    {line head : String} {words rest args : List String} {a b : Assembler}
    (hwords : (a.numbered number).wordsOf line = .ok words) (hequate : words.head? ≠ some ".equ")
    (hlabels : (defineLabels words).run (a.numbered number) = .ok rest b)
    (hrest : rest.map b.substitute = head :: args) (hnone : b.macros[head]? = none) :
    (readLineWith call number line).run a = (emit number (head :: args)).run b := by
  unfold readLineWith
  simp only [liftM_pass]
  rw [EStateM.run_bind, run_setLine]
  dsimp only
  rw [EStateM.run_bind, Course.run_readWords, hwords]
  dsimp only
  split
  · cases hlabels
    cases hrest
  · exact absurd rfl hequate
  · rw [EStateM.run_bind, hlabels]
    dsimp only
    rw [EStateM.run_bind, EStateM.run_get]
    dsimp only
    rw [hrest]
    dsimp only
    rw [hnone]

/-- However deep macros may call each other, a line is read in the same way. -/
theorem exists_readLine_eq (depth : Nat) :
    ∃ call : Macro → String → List String → Pass Unit, readLine depth = readLineWith call := by
  cases depth with
  | zero => exact ⟨_, rfl⟩
  | succ depth => exact ⟨_, rfl⟩

/-- A word that defines a label is read before the rest of the line. -/
theorem run_defineLabels_of_some {word label : String} {words : List String} {a : Assembler}
    (hlabel : labelOf? word = some label) (hnew : a.labels[label]? = none) :
    (defineLabels (word :: words)).run a =
      (defineLabels words).run { a with labels := a.labels.insert label a.here } := by
  have hnew' : ¬ a.labels.contains label = true := by simpa using hnew
  have hdefine : (defineLabel label).run a =
      .ok () { a with labels := a.labels.insert label a.here } := by
    unfold defineLabel
    rw [EStateM.run_bind, EStateM.run_get]
    dsimp only
    rw [if_neg hnew']
    rfl
  rw [defineLabels, hlabel]
  dsimp only
  rw [liftM_pass, EStateM.run_bind, hdefine]

/-- The labels of a line end with a word that defines none. -/
theorem run_defineLabels_of_none {word : String} (hlabel : labelOf? word = none)
    (words : List String) (a : Assembler) :
    (defineLabels (word :: words)).run a = .ok (word :: words) a := by
  rw [defineLabels, hlabel]
  rfl

/-- Outside of macros a line that starts none is read by itself, unless it is to end one. -/
theorem readSourceLine_of_not_opening {line : String}
    (hopens : ((Text.fields line.toList).map String.ofList).head? ≠ some ".macro")
    (number : Nat) :
    (readSourceLine number line none : Pass (Option String)) =
      if ((Text.fields line.toList).map String.ofList).head? = some ".endm" then
        throw .macroClosed
      else (readLine maxDepth number line >>= fun _ => pure none) := by
  unfold readSourceLine
  split
  · next hwords => exact absurd (congrArg List.head? hwords) hopens
  · next hwords =>
    rw [hwords]
    rfl
  · next _ hcloses =>
    refine (if_neg fun hhead => ?_).symm
    obtain ⟨args, hwords⟩ := List.head?_eq_some_iff.mp hhead
    exact hcloses args hwords

/-- Outside of macros a line without a directive for these is read by itself. -/
theorem run_readSourceLine_of_ne {number : Nat} {line : String} {a b : Assembler}
    (hopens : ((Text.fields line.toList).map String.ofList).head? ≠ some ".macro")
    (hcloses : ((Text.fields line.toList).map String.ofList).head? ≠ some ".endm")
    (hline : (readLine maxDepth number line).run a = .ok () b) :
    (readSourceLine number line none).run a = .ok none b := by
  rw [readSourceLine_of_not_opening hopens, if_neg hcloses, EStateM.run_bind, hline]
  rfl

/-- A line that fails outside of macros fails as a line of the source. -/
theorem run_readSourceLine_of_error {number : Nat} {line : String} {a b : Assembler}
    {e : AssemblyError}
    (hopens : ((Text.fields line.toList).map String.ofList).head? ≠ some ".macro")
    (hcloses : ((Text.fields line.toList).map String.ofList).head? ≠ some ".endm")
    (hline : (readLine maxDepth number line).run a = .error e b) :
    (readSourceLine number line none).run a = .error e b := by
  rw [readSourceLine_of_not_opening hopens, if_neg hcloses, EStateM.run_bind, hline]

/-- An empty statement adds nothing. -/
theorem run_emit_of_nil {words : List String} {a : Assembler}
    (hterms : Instruction.assemble a.equates words = .ok []) (number : Nat) :
    (emit number words).run a = .ok () a := by
  unfold emit
  rw [EStateM.run_bind, EStateM.run_get]
  dsimp only
  rw [hterms]
  rfl

/-- A statement that cannot be assembled adds nothing. -/
theorem run_emit_of_error {words : List String} {a : Assembler} {e : AssemblyError}
    (herror : Instruction.assemble a.equates words = .error e) (number : Nat) :
    (emit number words).run a = .error e a := by
  unfold emit
  rw [EStateM.run_bind, EStateM.run_get]
  dsimp only
  rw [herror]
  rfl

/-- A statement that can be assembled is added as an entry. -/
theorem run_emit_of_ok {number : Nat} {words : List String} {terms : List Term} {a : Assembler}
    (hterms : Instruction.assemble a.equates words = .ok terms) (hne : terms ≠ []) :
    (emit number words).run a = .ok () (a.added ⟨number, a.here, words, terms⟩) := by
  unfold emit
  rw [EStateM.run_bind, EStateM.run_get]
  dsimp only
  rw [hterms]
  cases terms with
  | nil => exact absurd rfl hne
  | cons t terms => rfl

/-- A line without macros and literals adds an entry, once its labels are defined. -/
theorem run_readSourceLine_of_bare {number : Nat} {line : String} {words rest : List String}
    {terms : List Term} {a b : Assembler}
    (hopens : ((Text.fields line.toList).map String.ofList).head? ≠ some ".macro")
    (hcloses : ((Text.fields line.toList).map String.ofList).head? ≠ some ".endm")
    (hwords : (a.numbered number).wordsOf line = .ok words)
    (hequate : words.head? ≠ some ".equ")
    (hlabels : (defineLabels words).run (a.numbered number) = .ok rest b) (hb : Bare b)
    (hrest : ∀ word ∈ rest, isCapital word = false)
    (hterms : Instruction.assemble b.equates rest = .ok terms) (hne : terms ≠ []) :
    (readSourceLine number line none).run a =
      .ok none (b.added ⟨number, b.here, rest, terms⟩) := by
  refine run_readSourceLine_of_ne hopens hcloses ?_
  cases rest with
  | nil =>
    cases hterms
    exact absurd rfl hne
  | cons head args =>
    obtain ⟨call, hcall⟩ := exists_readLine_eq maxDepth
    have hnone : b.macros[head]? = none := by
      rw [hb.macros]
      exact Std.ExtTreeMap.getElem?_empty
    rw [hcall, run_readLineWith hwords hequate hlabels (hb.map_substitute hrest) hnone]
    exact run_emit_of_ok hterms hne

/-- A line without capital letters adds an entry whatever is equated to names with one. -/
theorem run_readSourceLine_of_lower {number : Nat} {line : String} {words rest : List String}
    {terms : List Term} {a b : Assembler}
    (hopens : ((Text.fields line.toList).map String.ofList).head? ≠ some ".macro")
    (hcloses : ((Text.fields line.toList).map String.ofList).head? ≠ some ".endm")
    (hwords : (a.numbered number).wordsOf line = .ok words)
    (hequate : words.head? ≠ some ".equ")
    (hlabels : (defineLabels words).run (a.numbered number) = .ok rest b) (hb : Bare b)
    (hrest : rest.all isLower = true) (hterms : Instruction.assemble ∅ rest = .ok terms)
    (hne : terms ≠ []) :
    (readSourceLine number line none).run a =
      .ok none (b.added ⟨number, b.here, rest, terms⟩) :=
  run_readSourceLine_of_bare hopens hcloses hwords hequate hlabels hb
    (fun word hword => isCapital_of_isLower (List.all_eq_true.mp hrest word hword))
    ((hb.assemble_eq hrest).trans hterms) hne

/-- A source gives the listing that is linked behind its last line. -/
theorem run_parse {order : LinkOrder} {source : Source} {p : Position} {a b c : Assembler}
    {l : Listing} (hlong : source.hasLongLine = false) (hfailure : source.failure = none)
    (hlines : (readLines {} source.lines).run a.fresh = .ok p b) (hopened : p.opened = none)
    (hlink : (link order).run b = .ok l c) : (parse order source).run a = .ok l c := by
  have hfinish : (finish order source p).run b = .ok l c := by
    unfold finish
    rw [if_neg (by simp [hlong]), hfailure]
    dsimp only
    rw [if_neg (by simp [hopened])]
    exact hlink
  rw [Course.run_parse_eq, hlines]
  dsimp only
  rw [Course.run_within, hfinish]

/-! ## Plain lines -/

/-- Whether a character may stand in a word of a plain line. -/
def isPlain (c : Char) : Bool :=
  c.isAlphanum || c == '+' || c == '-' || c == '#' || c == '.' || c == '_'

/-- The characters that say something else than a word. -/
def isSpecial (c : Char) : Bool :=
  c == '\n' || c == '\r' || c == ';' || c == '\'' || c == '$' || c == ':'

/-- Letters and digits are below 128. -/
private theorem toNat_lt_of_isAlphanum {c : Char} (hc : c.isAlphanum = true) : c.toNat < 128 := by
  have hranges : ((decide ('A'.val ≤ c.val ∧ c.val ≤ 'Z'.val) ||
      ('a'.val ≤ c.val && c.val ≤ 'z'.val)) || ('0'.val ≤ c.val && c.val ≤ '9'.val)) = true := hc
  simp only [Bool.or_eq_true, Bool.and_eq_true, decide_eq_true_eq, UInt32.le_iff_toNat_le]
    at hranges
  have hends : 'Z'.val.toNat = 90 ∧ 'z'.val.toNat = 122 ∧ '9'.val.toNat = 57 := by decide
  change c.val.toNat < 128
  omega

/-- The characters of plain words are below 128. -/
private theorem toNat_lt_of_isPlain {c : Char} (hc : isPlain c = true) : c.toNat < 128 := by
  simp only [isPlain, Bool.or_eq_true, beq_iff_eq] at hc
  rcases hc with ((((hc | rfl) | rfl) | rfl) | rfl) | rfl
  · exact toNat_lt_of_isAlphanum hc
  all_goals decide

/-- A character of a word is nothing else. -/
theorem isPlain_spec {c : Char} (hc : isPlain c = true) :
    Text.isBlank c = false ∧ isSeparator c = false ∧ isSpecial c = false := by
  refine Text.of_toNat_lt (fun c => isPlain c = true →
    Text.isBlank c = false ∧ isSeparator c = false ∧ isSpecial c = false) ?_
    (toNat_lt_of_isPlain hc) hc
  decide

/-- A separator says nothing else. -/
theorem not_isSpecial_of_isSeparator {c : Char} (hc : isSeparator c = true) :
    isSpecial c = false := by
  simp only [isSeparator, Bool.or_eq_true, beq_iff_eq] at hc
  rcases hc with (rfl | rfl) | rfl <;> rfl

/-- Separators between two words. -/
structure Gap where
  chars : List Char
  nonempty : chars ≠ []
  separates : chars.all isSeparator = true

/-- A gap consists of separators. -/
theorem Gap.isSeparator_of_mem (gap : Gap) : ∀ c ∈ gap.chars, isSeparator c = true :=
  List.all_eq_true.mp gap.separates

/-- A word that stands for itself. -/
structure PlainWord where
  chars : List Char
  nonempty : chars ≠ []
  plain : chars.all isPlain = true
  unbound : isCapital (String.ofList chars) = false

/-- A plain word consists of plain characters. -/
theorem PlainWord.isPlain_of_mem (word : PlainWord) : ∀ c ∈ word.chars, isPlain c = true :=
  List.all_eq_true.mp word.plain

/-- A line of such words. Only one directive may stand on it. -/
structure PlainLine where
  name : PlainWord
  directive : name.chars.head? = some '.' → name.chars = ['.', 'd', 'a', 't', 'a']
  args : List (Gap × PlainWord)

namespace PlainLine

/-- Words with the gaps in front of them. -/
def spaced (args : List (Gap × PlainWord)) : List Char :=
  args.flatMap fun arg => arg.1.chars ++ arg.2.chars

/-- The text of a line. -/
def text (line : PlainLine) : List Char := line.name.chars ++ spaced line.args

/-- The words of a line. -/
def words (line : PlainLine) : List String :=
  String.ofList line.name.chars :: line.args.map fun arg => String.ofList arg.2.chars

/-- Arguments are written one after the other, each behind its gap. -/
theorem spaced_cons (arg : Gap × PlainWord) (args : List (Gap × PlainWord)) :
    spaced (arg :: args) = arg.1.chars ++ (arg.2.chars ++ spaced args) := by
  rw [spaced, List.flatMap_cons, List.append_assoc]
  rfl

/-- The fields of a line are its words. -/
theorem fieldsBy_spaced (name : PlainWord) (args : List (Gap × PlainWord)) :
    Text.fieldsBy isSeparator (name.chars ++ spaced args) =
      name.chars :: args.map fun arg => arg.2.chars := by
  have hname (word : PlainWord) : Text.fieldsBy isSeparator word.chars = [word.chars] :=
    Text.fieldsBy_word word.nonempty fun c hc => (isPlain_spec (word.isPlain_of_mem c hc)).2.1
  induction args generalizing name with
  | nil => simpa [spaced] using hname name
  | cons arg args ih =>
    rw [spaced_cons, Text.fieldsBy_append_gap arg.1.nonempty arg.1.isSeparator_of_mem, hname,
      ih arg.2]
    rfl

/-- A line consists of plain characters and separators. -/
private theorem mem_text {line : PlainLine} {c : Char} (hc : c ∈ line.text) :
    isPlain c = true ∨ isSeparator c = true := by
  rcases List.mem_append.mp hc with hc | hc
  · exact .inl (line.name.isPlain_of_mem c hc)
  · obtain ⟨arg, _, hc⟩ := List.mem_flatMap.mp hc
    rcases List.mem_append.mp hc with hc | hc
    · exact .inr (arg.1.isSeparator_of_mem c hc)
    · exact .inl (arg.2.isPlain_of_mem c hc)

/-- No character of a line has a special meaning. -/
private theorem not_isSpecial {line : PlainLine} {c : Char} (hc : c ∈ line.text) :
    isSpecial c = false := by
  rcases mem_text hc with hc | hc
  · exact (isPlain_spec hc).2.2
  · exact not_isSpecial_of_isSeparator hc

/-- A character with a special meaning is not in a line. -/
theorem not_mem_text (line : PlainLine) {c : Char} (hc : isSpecial c = true) : c ∉ line.text := by
  intro hmem
  rw [not_isSpecial hmem] at hc
  cases hc

/-- The last character of a line belongs to a word. -/
theorem isPlain_getLast {front : List Char}
    (hfront : ∀ c, front.getLast? = some c → isPlain c = true) (args : List (Gap × PlainWord)) :
    ∀ c, (front ++ spaced args).getLast? = some c → isPlain c = true := by
  induction args generalizing front with
  | nil => simpa [spaced] using hfront
  | cons arg args ih =>
    rw [spaced_cons, ← List.append_assoc, ← List.append_assoc]
    refine ih ?_
    intro c hc
    rw [List.getLast?_append_of_ne_nil _ arg.2.nonempty] at hc
    exact arg.2.isPlain_of_mem c (List.mem_of_getLast? hc)

/-- A line has no blanks at its ends. -/
theorem trim_text (line : PlainLine) : Text.trim line.text = line.text := by
  refine Text.trim_eq_self ?_ ?_
  · intro c hc
    rw [text, List.head?_append_of_ne_nil _ line.name.nonempty] at hc
    exact (isPlain_spec (line.name.isPlain_of_mem c (List.mem_of_head? hc))).1
  · intro c hc
    have hname : ∀ c, line.name.chars.getLast? = some c → isPlain c = true := fun c hc =>
      line.name.isPlain_of_mem c (List.mem_of_getLast? hc)
    exact (isPlain_spec (isPlain_getLast hname line.args c hc)).1

/-- A line has no comment, and no blanks at its ends. -/
theorem stripped_text (line : PlainLine) :
    stripped (String.ofList line.text) = String.ofList line.text := by
  have hcomment : line.text.takeWhile (· != ';') = line.text := by
    rw [List.takeWhile_eq_self_iff]
    intro c hc
    simpa using fun h : c = ';' => line.not_mem_text (by decide) (h ▸ hc)
  rw [stripped, String.toList_ofList, hcomment, trim_text]

/-- The words of a line are found in its text. -/
theorem wordsOf_text (line : PlainLine) (a : Assembler) :
    a.wordsOf (String.ofList line.text) = .ok line.words := by
  have hfields := fieldsBy_spaced line.name line.args
  rw [wordsOf_of_not_mem] <;> rw [String.toList_ofList]
  · rw [text, hfields, words, List.map_cons, List.map_map]
    rfl
  · exact line.not_mem_text (by decide)
  · exact line.not_mem_text (by decide)

/-- No word of a line has a capital letter. -/
theorem isCapital_of_mem_words {line : PlainLine} {word : String} (hword : word ∈ line.words) :
    isCapital word = false := by
  rcases List.mem_cons.mp hword with rfl | hword
  · exact line.name.unbound
  · obtain ⟨arg, _, rfl⟩ := List.mem_map.mp hword
    exact arg.2.unbound

/-- A name in front of a line is no label. -/
theorem labelOf?_name (line : PlainLine) : labelOf? (String.ofList line.name.chars) = none := by
  unfold labelOf?
  rw [String.toList_ofList]
  split
  · next cs hcs =>
    have hmem : ':' ∈ line.name.chars := by
      rw [← List.mem_reverse, hcs]
      exact List.mem_cons_self
    cases (isPlain_spec (line.name.isPlain_of_mem _ hmem)).2.2
  · rfl

/-- No word of a line defines a label. -/
private theorem run_defineLabels_words (line : PlainLine) (a : Assembler) :
    (defineLabels line.words).run a = .ok line.words a :=
  run_defineLabels_of_none line.labelOf?_name _ a

/-- A directive in front of a line is the one for data. -/
theorem eq_of_directive (line : PlainLine) {c : Char} {cs : List Char}
    (hfront : '.' :: c :: cs <+: line.text) : c = 'd' := by
  obtain ⟨rest, hrest⟩ := hfront
  have hname : line.name.chars.head? = some '.' := by
    rw [← List.head?_append_of_ne_nil line.name.chars line.name.nonempty]
    exact congrArg List.head? hrest.symm
  rw [text, line.directive hname] at hrest
  simp only [List.cons_append, List.cons.injEq] at hrest
  exact hrest.2.1

/-- A line is no equate. -/
private theorem head?_words_ne (line : PlainLine) : line.words.head? ≠ some ".equ" := by
  intro hequate
  have hname : line.name.chars = ['.', 'e', 'q', 'u'] := by
    have hword := congrArg String.toList (Option.some.inj hequate)
    rwa [String.toList_ofList] at hword
  have hfront : line.name.chars <+: line.text := List.prefix_append _ _
  rw [hname] at hfront
  cases line.eq_of_directive hfront

/-- A line is emitted as it stands. -/
theorem run_readSourceLine (line : PlainLine) {a : Assembler} (ha : Bare a) {number : Nat}
    {terms : List Term}
    (hterms : Instruction.assemble (a.numbered number).equates line.words = .ok terms)
    (hne : terms ≠ []) :
    (readSourceLine number (String.ofList line.text) none).run a =
      .ok none ((a.numbered number).added
        ⟨number, (a.numbered number).here, line.words, terms⟩) := by
  obtain ⟨c, cs, hname⟩ := List.exists_cons_of_ne_nil line.name.nonempty
  have htext : line.text = c :: (cs ++ spaced line.args) := by rw [text, hname, List.cons_append]
  have hblank : Text.isBlank c = false :=
    (isPlain_spec (line.name.isPlain_of_mem c (by simp [hname]))).1
  obtain ⟨first, others, hfields, hfront⟩ :=
    Text.fieldsBy_eq_cons hblank (cs ++ spaced line.args)
  rw [← htext] at hfields hfront
  have hfirst (word : String)
      (hword : ((Text.fields line.text).map String.ofList).head? = some word) :
      word.toList <+: line.text := by
    rw [Text.fields, hfields, List.map_cons, List.head?_cons] at hword
    rwa [← Option.some.inj hword, String.toList_ofList]
  refine run_readSourceLine_of_bare ?_ ?_ (line.wordsOf_text _) line.head?_words_ne
    (line.run_defineLabels_words _) (ha.numbered number) (fun _ => isCapital_of_mem_words) hterms
    hne
  · rw [String.toList_ofList]
    intro hopens
    cases line.eq_of_directive (hfirst _ hopens)
  · rw [String.toList_ofList]
    intro hcloses
    cases line.eq_of_directive (hfirst _ hcloses)

end PlainLine

end Assembler

end TapeMachine
