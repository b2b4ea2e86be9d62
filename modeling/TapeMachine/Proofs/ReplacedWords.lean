import TapeMachine.Proofs.LocalLabels

/-!
# Replaced words

An operand is a term, bare or behind a mark. A name that is equated to a text stands for
this text when it is a term behind a mark, just as when it is a word. So it makes no
difference to the program whether names are equated, or replaced in every word by their
texts, as long as no other equate interferes.
-/

namespace TapeMachine

namespace Outcome

variable {ε α β γ : Type}

/-- Two computations succeed together, and then give the same. -/
def Agree (x y : Except ε α) : Prop := ∀ r, x = .ok r ↔ y = .ok r

/-- Equal outcomes agree. -/
theorem Agree.of_eq {x y : Except ε α} (h : x = y) : Agree x y := fun r => by rw [h]

/-- Failures agree. -/
theorem Agree.of_errors {x y : Except ε α} {e e' : ε} (hx : x = .error e) (hy : y = .error e') :
    Agree x y := fun r => by rw [hx, hy]; simp

/-- Computations for the elements of two lists that agree one by one. -/
theorem forall₂_ok_of_agree {f : α → Except ε γ} {g : β → Except ε γ} {xs : List α} {ys : List β}
    (h : List.Forall₂ (fun x y => Agree (f x) (g y)) xs ys) (rs : List γ) :
    List.Forall₂ (fun x r => f x = .ok r) xs rs ↔ List.Forall₂ (fun y r => g y = .ok r) ys rs := by
  induction h generalizing rs with
  | nil => rw [List.forall₂_nil_left_iff, List.forall₂_nil_left_iff]
  | cons hfirst _ ih =>
    rw [List.forall₂_cons_left_iff, List.forall₂_cons_left_iff]
    constructor
    · rintro ⟨r, rest, hr, hrest, rfl⟩
      exact ⟨r, rest, (hfirst r).mp hr, (ih rest).mp hrest, rfl⟩
    · rintro ⟨r, rest, hr, hrest, rfl⟩
      exact ⟨r, rest, (hfirst r).mpr hr, (ih rest).mpr hrest, rfl⟩

end Outcome

open Outcome (Agree)

namespace Operand

/-! ## The parts of an operand -/

/-- The forms of an operand by the mark in front of its term. -/
inductive Form where
  | bare
  | immediate
  | above
  | below
  deriving DecidableEq

namespace Form

/-- The characters in front of an operand of a form. -/
def mark : Form → String
  | bare => ""
  | immediate => "#"
  | above => "rb+"
  | below => "rb-"

/-- What a term is in this form. -/
def operand : Form → Term → Except AssemblyError (Mode × Term)
  | bare, t => .ok (.position, t)
  | immediate, t => .ok (.immediate, t)
  | above, t => .ok (.relative, t)
  | below, t => do
    let t ← opposite t
    return (.relative, t)

end Form

/-- The form and the term of an operand. -/
def parts (word : String) : Form × String :=
  match word.toList with
  | '#' :: cs => (.immediate, String.ofList cs)
  | 'r' :: 'b' :: '+' :: cs => (.above, String.ofList cs)
  | 'r' :: 'b' :: '-' :: cs => (.below, String.ofList cs)
  | _ => (.bare, word)

/-- A word is its mark and what follows. -/
theorem mark_append_parts (word : String) : (parts word).1.mark ++ (parts word).2 = word := by
  apply String.toList_injective
  rw [String.toList_append]
  unfold parts
  split
  · next h => simp [Form.mark, h]
  · next h => simp [Form.mark, h]
  · next h => simp [Form.mark, h]
  · simp [Form.mark]

/-- Every word is a mark and a term. -/
theorem exists_eq_mark_append (word : String) :
    ∃ form rest, parts word = (form, rest) ∧ word = form.mark ++ rest :=
  ⟨_, _, rfl, (mark_append_parts word).symm⟩

/-- Behind a mark stands the term. -/
theorem parts_mark_append {form : Form} (hform : form ≠ .bare) (word : String) :
    parts (form.mark ++ word) = (form, word) := by
  cases form with
  | bare => exact absurd rfl hform
  | immediate => simp [parts, Form.mark]
  | above => simp [parts, Form.mark]
  | below => simp [parts, Form.mark]

/-- A label has no mark. -/
theorem parts_of_isLabel {word : String} (hlabel : isLabel word = true) :
    parts word = (.bare, word) := by
  obtain ⟨hhash, hplus, hminus⟩ := not_mem_of_isLabel hlabel
  obtain ⟨form, rest, hparts, rfl⟩ := exists_eq_mark_append word
  cases form with
  | bare => rw [hparts, Form.mark, String.empty_append]
  | immediate => exact absurd (by simp [Form.mark]) hhash
  | above => exact absurd (by simp [Form.mark]) hplus
  | below => exact absurd (by simp [Form.mark]) hminus

/-- An operand is read from its parts. -/
theorem read_eq {word : String} (hbase : word ≠ "rb") (equates : Table String) :
    read equates word = resolve equates (parts word).2 >>= (parts word).1.operand := by
  have hmarked (form : Form) {cs : List Char} (hform : form ≠ .bare)
      (h : word.toList = form.mark.toList ++ cs) : parts word = (form, String.ofList cs) := by
    have hword : word = form.mark ++ String.ofList cs := by
      apply String.toList_injective
      rw [h, String.toList_append, String.toList_ofList]
    rw [hword, parts_mark_append hform]
  unfold read
  split
  · next h => rw [hmarked .immediate (by decide) h]; rfl
  · next h => exact absurd (String.toList_injective h) hbase
  · next h => rw [hmarked .above (by decide) h]; rfl
  · next h => rw [hmarked .below (by decide) h]; rfl
  · next hhash _ hplus hminus =>
    -- No mark stands in front, so the word is its own term.
    obtain ⟨form, rest, hparts, hword⟩ := exists_eq_mark_append word
    have hlist : word.toList = form.mark.toList ++ rest.toList := by
      rw [← String.toList_append, ← hword]
    cases form with
    | bare =>
      rw [Form.mark, String.empty_append] at hword
      rw [hparts, hword]
      rfl
    | immediate => exact absurd hlist (hhash _)
    | above => exact absurd hlist (hplus _)
    | below => exact absurd hlist (hminus _)

/-- What has a mark is neither a number nor a label. -/
theorem term_of_mark {word : String} (hform : (parts word).1 ≠ .bare) :
    ∃ e, term word = .error e := by
  have hmalformed : Numeral.readAnnounced word.toList = .malformed := by
    obtain ⟨form, rest, hparts, hword⟩ := exists_eq_mark_append word
    rw [hparts] at hform
    rw [hword, String.toList_append]
    cases form with
    | bare => exact absurd rfl hform
    | _ =>
      exact Numeral.readAnnounced_of_not_isDigit (by decide) (by decide) (by decide) (by decide) _
  have hlabel : ¬ isLabel word = true := by
    intro hlabel
    rw [parts_of_isLabel hlabel] at hform
    exact hform rfl
  unfold term
  rw [hmalformed]
  exact ⟨_, if_neg hlabel⟩

/-! ## Words with names replaced -/

/-- A word in which a name that is bound, bare or behind a mark, is replaced by its text. -/
def replaced (bindings : List (String × String)) (word : String) : String :=
  match bindings.lookup (parts word).2 with
  | some text => (parts word).1.mark ++ text
  | none => word

/-- What is found is in the list. -/
theorem mem_of_lookup {bindings : List (String × String)} {name text : String}
    (h : bindings.lookup name = some text) : (name, text) ∈ bindings := by
  obtain ⟨before, behind, rfl, _⟩ := List.lookup_eq_some_iff.mp h
  exact List.mem_append_right before List.mem_cons_self

/-- A table with names bound over another one, and that one without them. What is equated to
the number of the line does not matter. -/
structure Binds (bindings : List (String × String)) (table inner outer : Table String) :
    Prop where
  inner : ∀ name, name ≠ Assembler.lineName →
    inner[name]? = (bindings.lookup name).or table[name]?
  outer : ∀ name, name ≠ Assembler.lineName → outer[name]? = table[name]?
  known : table[Assembler.lineName]? ≠ none

/-- Bound names and the equates of a table have nothing to do with each other. -/
structure Apart (bindings : List (String × String)) (table : Table String) : Prop where
  formals : ∀ name text, bindings.lookup name = some text → isLabel name = true
  /-- A text is no equate and no bound name, nor is it one behind a mark. -/
  texts : ∀ name text, bindings.lookup name = some text →
    ∀ word, word = text ∨ word = (parts text).2 →
      table[word]? = none ∧ bindings.lookup word = none
  /-- No equate has a bound name as its name or text, nor a bound name behind a mark. -/
  equates : ∀ name text, table[name]? = some text →
    bindings.lookup (parts name).2 = none ∧ bindings.lookup (parts text).2 = none

/-- A word that does not depend on the number of the line, and is no equate once a bound name
is replaced in it. -/
structure Clear (bindings : List (String × String)) (table : Table String) (word : String) :
    Prop where
  line : word ≠ Assembler.lineName
  operand : (parts ((table[word]?).getD word)).2 ≠ Assembler.lineName
  unequated : bindings.lookup (parts word).2 ≠ none → table[replaced bindings word]? = none

/-- Two words that mean the same as operands, each in its own table. In front of a line they
are the same, or neither is the name of a statement. -/
structure Matching (inner outer : Table String) (u v : String) : Prop where
  read : Agree (read inner u) (read outer v)
  resolve : Agree (resolve inner u) (resolve outer v)
  name : u = v ∨ (parts u).1 ≠ .bare ∧ (parts v).1 ≠ .bare

section Words

variable {bindings : List (String × String)} {table inner outer : Table String} {word : String}

/-- A name that is not equated is not the number of the line. -/
theorem Binds.ne_of_none (h : Binds bindings table inner outer) (hword : table[word]? = none) :
    word ≠ Assembler.lineName := by
  rintro rfl
  exact h.known hword

/-- No word becomes the number of the line. -/
theorem Binds.replaced_ne (h : Binds bindings table inner outer)
    (hclear : Clear bindings table word) : replaced bindings word ≠ Assembler.lineName := by
  cases hcore : bindings.lookup (parts word).2 with
  | none =>
    rw [replaced, hcore]
    exact hclear.line
  | some text => exact h.ne_of_none (hclear.unequated (by simp [hcore]))

/-- What a bound name stands for. -/
theorem Binds.inner_eq_some (h : Binds bindings table inner outer) (hapart : Apart bindings table)
    {name text : String} (hname : bindings.lookup name = some text) : inner[name]? = some text := by
  rw [h.inner name, hname, Option.some_or]
  rintro rfl
  obtain ⟨number, hnumber⟩ := Option.ne_none_iff_exists'.mp h.known
  have hnone : bindings.lookup Assembler.lineName = none := (hapart.equates _ _ hnumber).1
  rw [hnone] at hname
  cases hname

/-- Where the term of a word is not bound, the word is not. -/
theorem Apart.lookup_eq_none (h : Apart bindings table)
    (hcore : bindings.lookup (parts word).2 = none) : bindings.lookup word = none := by
  by_contra hsome
  obtain ⟨text, htext⟩ := Option.ne_none_iff_exists'.mp hsome
  rw [parts_of_isLabel (h.formals word text htext), htext] at hcore
  cases hcore

/-- A word that is bound neither by itself nor behind its mark means the same. -/
theorem Binds.matching_self (h : Binds bindings table inner outer) (hapart : Apart bindings table)
    (hcore : bindings.lookup (parts word).2 = none)
    (hline : (parts word).2 ≠ Assembler.lineName) : Matching inner outer word word := by
  have hword : word ≠ Assembler.lineName := by
    rintro rfl
    exact hline rfl
  have hsame {name : String} (hname : bindings.lookup name = none)
      (hne : name ≠ Assembler.lineName) :
      Operand.resolve inner name = Operand.resolve outer name := by
    rw [Operand.resolve, Operand.resolve, h.inner name hne, h.outer name hne, hname,
      Option.none_or]
  refine ⟨.of_eq ?_, .of_eq (hsame (hapart.lookup_eq_none hcore) hword), .inl rfl⟩
  by_cases hbase : word = "rb"
  · rw [hbase]
    rfl
  · rw [read_eq hbase, read_eq hbase, hsame hcore hline]

/-- A bound name behind a mark means what its text means behind that mark. -/
theorem Binds.matching_mark (h : Binds bindings table inner outer) (hapart : Apart bindings table)
    {form : Form} (hform : form ≠ .bare) {name text : String}
    (hname : bindings.lookup name = some text) (hinner : inner[form.mark ++ name]? = none)
    (houter : outer[form.mark ++ text]? = none) :
    Matching inner outer (form.mark ++ name) (form.mark ++ text) := by
  have hparts := parts_mark_append hform
  have hbase (word : String) : form.mark ++ word ≠ "rb" := by
    intro hbase
    have hword := hparts word
    rw [hbase] at hword
    exact hform (congrArg Prod.fst hword).symm
  have hmark (word : String) : (parts (form.mark ++ word)).1 ≠ .bare := by rwa [hparts]
  have htext : outer[text]? = none := by
    have hnone := (hapart.texts name text hname text (.inl rfl)).1
    rwa [h.outer text (h.ne_of_none hnone)]
  refine ⟨.of_eq ?_, ?_, .inr ⟨hmark name, hmark text⟩⟩
  · rw [read_eq (hbase name), read_eq (hbase text), hparts, hparts, Operand.resolve,
      Operand.resolve, h.inner_eq_some hapart hname, htext]
    rfl
  · obtain ⟨e, he⟩ := term_of_mark (hmark name)
    obtain ⟨e', he'⟩ := term_of_mark (hmark text)
    rw [Operand.resolve, Operand.resolve, hinner, houter]
    exact .of_errors he he'

/-- A word means the same, whether a name in it is equated or replaced. -/
theorem Binds.matching (h : Binds bindings table inner outer) (hapart : Apart bindings table)
    (hclear : Clear bindings table word) :
    Matching inner outer ((inner[word]?).getD word)
      ((outer[replaced bindings word]?).getD (replaced bindings word)) := by
  cases hcore : bindings.lookup (parts word).2 with
  | none =>
    have hreplaced : replaced bindings word = word := by rw [replaced, hcore]
    rw [hreplaced, h.inner word hclear.line, h.outer word hclear.line,
      hapart.lookup_eq_none hcore, Option.none_or]
    refine h.matching_self hapart ?_ hclear.operand
    cases hword : table[word]? with
    | none => exact hcore
    | some text => exact (hapart.equates word text hword).2
  | some text =>
    have hreplaced : replaced bindings word = (parts word).1.mark ++ text := by
      rw [replaced, hcore]
    have houter : outer[replaced bindings word]? = none := by
      rw [h.outer _ (h.replaced_ne hclear), hclear.unequated (by simp [hcore])]
    rw [houter, Option.getD_none, hreplaced]
    by_cases hform : (parts word).1 = .bare
    · have hword : (parts word).2 = word := by
        conv_rhs => rw [← mark_append_parts word, hform]
        exact String.empty_append.symm
      have hinner : inner[word]? = some text := h.inner_eq_some hapart (hword ▸ hcore)
      obtain ⟨hnone, hlookup⟩ := hapart.texts _ _ hcore _ (.inr rfl)
      have hempty : Form.bare.mark ++ text = text := String.empty_append
      rw [hinner, Option.getD_some, hform, hempty]
      exact h.matching_self hapart hlookup (h.ne_of_none hnone)
    · have htable : table[word]? = none := by
        by_contra hsome
        obtain ⟨t, ht⟩ := Option.ne_none_iff_exists'.mp hsome
        rw [(hapart.equates word t ht).1] at hcore
        cases hcore
      have hlookup : bindings.lookup word = none := by
        by_contra hsome
        obtain ⟨t, ht⟩ := Option.ne_none_iff_exists'.mp hsome
        rw [parts_of_isLabel (hapart.formals word t ht)] at hform
        exact hform rfl
      have hinner : inner[word]? = none := by
        rw [h.inner word hclear.line, hlookup, htable, Option.none_or]
      rw [hinner, Option.getD_none]
      have hmatching := h.matching_mark hapart hform hcore
        (by rwa [mark_append_parts]) (by rwa [← hreplaced])
      rwa [mark_append_parts] at hmatching

end Words

end Operand

namespace Instruction

open Operand (Matching)

/-! ## Lines with names replaced -/

/-- The names of instructions that are spelled differently. -/
def aliases : List String := ["halt", "jnz", "jz", "jump", "mov"]

/-- A statement that has only one name is written out as it is. -/
theorem unalias_of_not_mem {head : String} (hhead : head ∉ aliases) (args : List String) :
    unalias (head :: args) = head :: args := by
  unfold unalias
  split
  case h_6 => rfl
  case h_1 hwords | h_2 hwords | h_3 hwords | h_4 hwords | h_5 hwords =>
    obtain ⟨rfl, _⟩ := List.cons.inj hwords
    exact absurd (by decide) hhead

/-- What is not a data line is an instruction. -/
theorem assemble_of_unalias {words args : List String} {name : String}
    (hunalias : unalias words = name :: args) (hdata : name ≠ ".data") (equates : Table String) :
    assemble equates words =
      match Opcode.ofMnemonic? name with
      | none => .error .instructionInvalid
      | some op => assembleOperation equates op args := by
  unfold assemble
  rw [hunalias]
  split
  · next h => cases h
  · next h => exact absurd (List.cons.inj h).1 hdata
  · next h =>
    obtain ⟨rfl, rfl⟩ := List.cons.inj h
    rfl

/-- An operand behind a mark names no statement. -/
theorem assemble_of_mark {head : String} (hmark : (Operand.parts head).1 ≠ .bare)
    (equates : Table String) (args : List String) :
    assemble equates (head :: args) = .error .instructionInvalid := by
  have hne (name : String) (hname : (Operand.parts name).1 = .bare) : head ≠ name := by
    rintro rfl
    exact hmark hname
  have halias : head ∉ aliases := by
    intro hmem
    have hbare : ∀ name ∈ aliases, (Operand.parts name).1 = .bare := by decide
    exact hmark (hbare head hmem)
  have hnone : Opcode.ofMnemonic? head = none := by
    by_contra hsome
    obtain ⟨op, hop⟩ := Option.ne_none_iff_exists'.mp hsome
    refine hne op.mnemonic ?_ (ofMnemonic?_eq_some_iff.mp hop)
    cases op <;> decide
  rw [assemble_of_unalias (unalias_of_not_mem halias args) (hne ".data" (by decide)), hnone]

/-- Another spelling is resolved in the same way for other operands. -/
theorem unalias_forall₂ {R : String → String → Prop} (hone : R "#1" "#1") (hzero : R "#0" "#0")
    (head : String) {args args' : List String} (hargs : List.Forall₂ R args args') :
    ∃ name rest rest', unalias (head :: args) = name :: rest ∧
      unalias (head :: args') = name :: rest' ∧ List.Forall₂ R rest rest' := by
  by_cases hhead : head ∈ aliases
  swap
  · rw [unalias_of_not_mem hhead, unalias_of_not_mem hhead]
    exact ⟨head, args, args', rfl, rfl, hargs⟩
  · have hcases : head = "halt" ∨ head = "jnz" ∨ head = "jz" ∨ head = "jump" ∨ head = "mov" := by
      simpa [aliases] using hhead
    rcases hcases with rfl | rfl | rfl | rfl | rfl
    · cases hargs with
      | nil => exact ⟨_, _, _, rfl, rfl, .nil⟩
      | cons hfirst hrest => exact ⟨_, _, _, rfl, rfl, .cons hfirst hrest⟩
    · exact ⟨_, _, _, rfl, rfl, hargs⟩
    · exact ⟨_, _, _, rfl, rfl, hargs⟩
    · cases hargs with
      | nil => exact ⟨_, _, _, rfl, rfl, .nil⟩
      | cons hfirst hrest =>
        cases hrest with
        | nil => exact ⟨_, _, _, rfl, rfl, .cons hone (.cons hfirst .nil)⟩
        | cons hsecond hrest => exact ⟨_, _, _, rfl, rfl, .cons hfirst (.cons hsecond hrest)⟩
    · cases hargs with
      | nil => exact ⟨_, _, _, rfl, rfl, .nil⟩
      | cons hfirst hrest =>
        cases hrest with
        | nil => exact ⟨_, _, _, rfl, rfl, .cons hfirst .nil⟩
        | cons hsecond hrest =>
          cases hrest with
          | nil => exact ⟨_, _, _, rfl, rfl, .cons hfirst (.cons hzero (.cons hsecond .nil))⟩
          | cons hthird hrest =>
            exact ⟨_, _, _, rfl, rfl, .cons hfirst (.cons hsecond (.cons hthird hrest))⟩

section Lines

variable {inner outer : Table String}

/-- Data is assembled alike if its words match. -/
private theorem agree_assembleData {args args' : List String}
    (hargs : List.Forall₂ (Matching inner outer) args args') :
    Agree (assembleData inner args) (assembleData outer args') := by
  cases hargs with
  | nil => exact .of_eq rfl
  | cons hfirst hrest =>
    intro terms
    have hboth := List.Forall₂.cons hfirst hrest
    unfold assembleData
    rw [List.isEmpty_cons, List.isEmpty_cons, if_neg Bool.false_ne_true,
      if_neg Bool.false_ne_true, Outcome.mapM_eq_ok_iff, Outcome.mapM_eq_ok_iff]
    exact Outcome.forall₂_ok_of_agree (hboth.imp fun _ _ h => h.resolve) terms

/-- Operations are assembled alike if their words match. -/
private theorem agree_assembleOperation {args args' : List String} (op : Opcode)
    (hargs : List.Forall₂ (Matching inner outer) args args') :
    Agree (assembleOperation inner op args) (assembleOperation outer op args') := by
  intro terms
  rw [assembleOperation_eq_ok_iff, assembleOperation_eq_ok_iff]
  have hread := Outcome.forall₂_ok_of_agree (hargs.imp fun _ _ h => h.read)
  constructor
  · rintro ⟨operands, hoperands, hrest⟩
    exact ⟨operands, (hread operands).mp hoperands, hrest⟩
  · rintro ⟨operands, hoperands, hrest⟩
    exact ⟨operands, (hread operands).mpr hoperands, hrest⟩

/-- Lines of words that mean the same are assembled alike. -/
theorem agree_assemble (hone : Matching inner outer "#1" "#1")
    (hzero : Matching inner outer "#0" "#0") {words words' : List String}
    (hwords : List.Forall₂ (Matching inner outer) words words') :
    Agree (assemble inner words) (assemble outer words') := by
  cases hwords with
  | nil => exact .of_eq rfl
  | @cons head head' args args' hhead hargs =>
    rcases hhead.name with rfl | ⟨hmark, hmark'⟩
    · obtain ⟨name, rest, rest', hunalias, hunalias', hrest⟩ :=
        unalias_forall₂ hone hzero head hargs
      by_cases hdata : name = ".data"
      · subst hdata
        unfold assemble
        rw [hunalias, hunalias']
        exact agree_assembleData hrest
      · rw [assemble_of_unalias hunalias hdata, assemble_of_unalias hunalias' hdata]
        cases Opcode.ofMnemonic? name with
        | none => exact .of_eq rfl
        | some op => exact agree_assembleOperation op hrest
    · exact .of_errors (assemble_of_mark hmark _ _) (assemble_of_mark hmark' _ _)

end Lines

/-- A line is assembled alike, whether names in it are equated or replaced. -/
theorem agree_of_binds {bindings : List (String × String)} {table inner outer : Table String}
    (h : Operand.Binds bindings table inner outer) (hapart : Operand.Apart bindings table)
    {words : List String} (hwords : ∀ word ∈ words, Operand.Clear bindings table word) :
    Agree (assemble inner (words.map fun word => (inner[word]?).getD word))
      (assemble outer ((words.map (Operand.replaced bindings)).map fun word =>
        (outer[word]?).getD word)) := by
  have hnumber (word : String) (hword : Operand.isLabel (Operand.parts word).2 = false)
      (hline : (Operand.parts word).2 ≠ Assembler.lineName) : Matching inner outer word word := by
    refine h.matching_self hapart ?_ hline
    by_contra hsome
    obtain ⟨text, htext⟩ := Option.ne_none_iff_exists'.mp hsome
    rw [hapart.formals _ _ htext] at hword
    cases hword
  refine agree_assemble (hnumber "#1" (by decide) (by decide))
    (hnumber "#0" (by decide) (by decide)) ?_
  rw [List.map_map, List.forall₂_map_left_iff, List.forall₂_map_right_iff]
  exact List.forall₂_same.mpr fun word hword => h.matching hapart (hwords word hword)

end Instruction

end TapeMachine
