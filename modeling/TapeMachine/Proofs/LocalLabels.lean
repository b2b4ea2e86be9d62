import TapeMachine.Proofs.DefinedLabels
import TapeMachine.Proofs.Linking

/-!
# Local labels

On a line of a macro, an at sign stands for the name of the macro and the number of that
line. So a local label and a word that refers to it are the same label if they stand on
the same line of the macro, and different labels if they stand on different lines. The
number does not tell one call from another: a line with a local label can be read only
once. Where a source is assembled, a reference gets the address of the label that has
the name of its own line.
-/

namespace TapeMachine

open Numeral (Outgrows)

/-! ## Local names -/

namespace Assembler

/-- The name that a local name stands for on a line of a macro. -/
def localName (name : String) (number : Nat) (x : String) : String :=
  name ++ "_" ++ Nat.repr number ++ "_" ++ x

/-- What stands for a character on a line of a macro. -/
def localized (name : String) (number : Nat) (c : Char) : List Char :=
  if c == '@' then (name ++ "_" ++ Nat.repr number ++ "_").toList else [c]

/-- Each character of a line is made local by itself. -/
theorem toList_localize (name : String) (number : Nat) (line : String) :
    (localize name number line).toList = line.toList.flatMap (localized name number) :=
  String.toList_ofList

/-- A text without a local mark stays as it is. -/
theorem flatMap_localized_of_not_mem {cs : List Char} (hat : '@' ∉ cs) (name : String)
    (number : Nat) : cs.flatMap (localized name number) = cs := by
  induction cs with
  | nil => rfl
  | cons c cs ih =>
    rw [List.mem_cons, not_or] at hat
    rw [List.flatMap_cons, ih hat.2, localized, if_neg (by simpa using Ne.symm hat.1)]
    rfl

/-- An at sign in front of a name makes it a local one. -/
theorem localize_at {x : String} (hat : '@' ∉ x.toList) (name : String) (number : Nat) :
    localize name number ("@" ++ x) = localName name number x := by
  apply String.toList_injective
  have hmark : localized name number '@' =
      (name ++ "_" ++ Nat.repr number ++ "_").toList := rfl
  rw [toList_localize, String.toList_append, List.flatMap_append,
    flatMap_localized_of_not_mem hat, localName, String.toList_append]
  simp [hmark]

/-- Digits end at an underscore. -/
theorem takeWhile_toDigits (n : Nat) (cs : List Char) :
    (Nat.toDigits 10 n ++ '_' :: cs).takeWhile (· != '_') = Nat.toDigits 10 n := by
  rw [List.takeWhile_append_of_pos, List.takeWhile_cons_of_neg (by decide), List.append_nil]
  intro c hc
  have hdigit : c.isDigit = true := Nat.isDigit_of_mem_toDigits (by decide) (by decide) hc
  simp only [bne_iff_ne]
  rintro rfl
  cases hdigit

/-- A name tells its line and what is local there. -/
theorem localName_inj {name x x' : String} {n n' : Nat} :
    localName name n x = localName name n' x' ↔ n = n' ∧ x = x' := by
  constructor
  · intro heq
    have hlist : Nat.toDigits 10 n ++ '_' :: x.toList = Nat.toDigits 10 n' ++ '_' :: x'.toList := by
      simpa [localName, String.append_assoc, Nat.toList_repr] using congrArg String.toList heq
    have hdigits : Nat.toDigits 10 n = Nat.toDigits 10 n' := by
      rw [← takeWhile_toDigits n x.toList, hlist, takeWhile_toDigits]
    have hnumber : n = n' := by
      rw [← Nat.ofDigitChars_ten_toDigits (n := n), hdigits, Nat.ofDigitChars_ten_toDigits]
    rw [hdigits, List.append_right_inj, List.cons.injEq] at hlist
    exact ⟨hnumber, String.toList_injective hlist.2⟩
  · rintro ⟨rfl, rfl⟩
    rfl

/-! ## Lines with local names -/

/-- Whether a character neither separates words nor belongs to a literal. -/
def isWordChar (c : Char) : Bool := !isSeparator c && c != '\'' && c != '$'

/-- Where the name of a macro is a word, so is what an at sign stands for. -/
theorem isWordChar_of_mem_localized {name : String} (hname : name.toList.all isWordChar = true)
    {number : Nat} {c d : Char} (hd : d ∈ localized name number c) (hne : d ≠ c) :
    isWordChar d = true := by
  unfold localized at hd
  split at hd
  · simp only [String.toList_append, List.mem_append, Nat.toList_repr] at hd
    rcases hd with ((hd | hd) | hd) | hd
    · exact List.all_eq_true.mp hname d hd
    · obtain rfl : d = '_' := by simpa using hd
      decide
    · have hdigit : d.isDigit = true := Nat.isDigit_of_mem_toDigits (by decide) (by decide) hd
      have hplain : isPlain d = true := by simp [isPlain, Char.isAlphanum, hdigit]
      obtain ⟨_, hseparator, hspecial⟩ := isPlain_spec hplain
      simp only [isSpecial, Bool.or_eq_false_iff] at hspecial
      simp [isWordChar, hseparator, bne, hspecial]
    · obtain rfl : d = '_' := by simpa using hd
      decide
  · exact absurd (List.mem_singleton.mp hd) hne

/-- The words of a line as they are written. -/
def writtenWords (line : String) : List String :=
  (Text.fieldsBy isSeparator line.toList).map String.ofList

/-- The words of a line without literals are those that are written, with their local names
made distinct. -/
theorem Visit.words_of_scope {v : Visit} {name : String} (hscope : v.scope = some name)
    (hname : name.toList.all isWordChar = true) (hquote : '\'' ∉ v.written.toList)
    (hdollar : '$' ∉ v.written.toList) :
    v.words = (writtenWords v.written).map (localize name v.number) := by
  have hline : v.line.toList = v.written.toList.flatMap (localized name v.number) := by
    rw [Visit.line, hscope]
    exact toList_localize name v.number v.written
  have hnone (c : Char) (hc : isWordChar c = false) (hwritten : c ∉ v.written.toList) :
      c ∉ v.line.toList := by
    rw [hline]
    intro hmem
    obtain ⟨d, hd, hmem⟩ := List.mem_flatMap.mp hmem
    have hne : c ≠ d := fun h => hwritten (h ▸ hd)
    rw [isWordChar_of_mem_localized hname hmem hne] at hc
    cases hc
  have hseparator (c : Char) (hc : isSeparator c = true) : localized name v.number c = [c] := by
    unfold localized
    rw [if_neg]
    simp only [beq_iff_eq]
    rintro rfl
    cases hc
  have hother (c : Char) (hc : isSeparator c = false) : localized name v.number c ≠ [] ∧
      ∀ d ∈ localized name v.number c, isSeparator d = false := by
    constructor
    · unfold localized
      split
      · simp
      · simp
    · intro d hd
      by_cases hne : d = c
      · rw [hne, hc]
      · have hword := isWordChar_of_mem_localized hname hd hne
        simp only [isWordChar, Bool.and_eq_true, Bool.not_eq_true'] at hword
        exact hword.1.1
  refine Visit.words_of_ok ?_
  rw [wordsOf_of_not_mem (hnone _ rfl hquote) (hnone _ rfl hdollar), hline,
    Text.fieldsBy_flatMap hseparator hother, writtenWords, List.map_map, List.map_map]
  congr 1
  apply List.map_congr_left
  intro word _
  rw [Function.comp_apply, Function.comp_apply, ← String.toList_inj, toList_localize,
    String.toList_ofList, String.toList_ofList]

/-- A word defines a label by the colon at its end. -/
theorem labelOf?_eq_some_iff {word label : String} :
    labelOf? word = some label ↔ word.toList = label.toList ++ [':'] := by
  have hreverse : word.toList = label.toList ++ [':'] ↔
      word.toList.reverse = ':' :: label.toList.reverse := by
    rw [← List.reverse_inj, List.reverse_append, List.reverse_singleton, List.singleton_append]
  rw [hreverse]
  unfold labelOf?
  split
  · next cs hcs =>
    rw [hcs, Option.some.injEq, List.cons.injEq, ← String.toList_inj, String.toList_ofList]
    constructor
    · intro h
      exact ⟨rfl, by rw [← h, List.reverse_reverse]⟩
    · rintro ⟨_, rfl⟩
      exact List.reverse_reverse _
  · next hother =>
    constructor
    · intro h
      cases h
    · intro h
      exact absurd h (hother _)

/-- A word in a macro defines a label if it does so as it is written. -/
theorem labelOf?_localize (name : String) (number : Nat) (word : String) :
    labelOf? (localize name number word) = (labelOf? word).map (localize name number) := by
  cases hlabel : labelOf? word with
  | some label =>
    rw [Option.map_some, labelOf?_eq_some_iff, toList_localize, toList_localize,
      labelOf?_eq_some_iff.mp hlabel, List.flatMap_append]
    rfl
  | none =>
    rw [Option.map_none, Option.eq_none_iff_forall_ne_some]
    intro label hsome
    have hlast := congrArg List.getLast? (labelOf?_eq_some_iff.mp hsome)
    rw [toList_localize, List.getLast?_concat] at hlast
    rcases List.eq_nil_or_concat' word.toList with hnil | ⟨cs, c, hcs⟩
    · rw [hnil] at hlast
      cases hlast
    · have hne : c ≠ ':' := by
        rintro rfl
        have hword : labelOf? word = some (String.ofList cs) := by
          rw [labelOf?_eq_some_iff, hcs, String.toList_ofList]
        rw [hlabel] at hword
        cases hword
      rw [hcs, List.flatMap_append, List.flatMap_singleton] at hlast
      unfold localized at hlast
      split at hlast
      · have hmark : (name ++ "_" ++ Nat.repr number ++ "_").toList =
            (name ++ "_" ++ Nat.repr number).toList ++ ['_'] := String.toList_append
        rw [hmark, ← List.append_assoc, List.getLast?_concat] at hlast
        cases hlast
      · rw [List.getLast?_concat] at hlast
        exact hne (Option.some.inj hlast)

/-- The labels in front of a line stay in front of it. -/
theorem frontLabels_localize (name : String) (number : Nat) (words : List String) :
    frontLabels (words.map (localize name number)) =
      (frontLabels words).map (localize name number) := by
  induction words with
  | nil => rfl
  | cons word words ih =>
    rw [List.map_cons, frontLabels, frontLabels, labelOf?_localize]
    cases labelOf? word with
    | none => rfl
    | some label => rw [Option.map_some, List.map_cons, ← ih]

end Assembler

/-! ## Words that refer to a label -/

namespace Operand

/-- An operand that refers to a label: as an address, as a value, or as a distance. -/
def RefersTo (label word : String) : Prop :=
  word = label ∨ word = "#" ++ label ∨ word = "rb+" ++ label

/-- What may stand in a label. -/
private theorem mem_of_isLabel {label : String} (hlabel : isLabel label = true) {c : Char}
    (hc : c ∈ label.toList) : startsLabel c = true ∨ c.isDigit = true ∨ c = '.' := by
  unfold isLabel at hlabel
  split at hlabel
  · cases hlabel
  · next first rest hlist =>
    rw [Bool.and_eq_true] at hlabel
    rw [hlist] at hc
    rcases List.mem_cons.mp hc with rfl | hc
    · exact .inl hlabel.1
    · simpa [or_assoc] using List.all_eq_true.mp hlabel.2 c hc

/-- A label has no sign of another form in it. -/
theorem not_mem_of_isLabel {label : String} (hlabel : isLabel label = true) :
    '#' ∉ label.toList ∧ '+' ∉ label.toList ∧ '-' ∉ label.toList := by
  refine ⟨?_, ?_, ?_⟩
  all_goals
    intro hmem
    have hchar := mem_of_isLabel hlabel hmem
    revert hchar
    decide

/-- A label names itself and no number. -/
theorem eq_of_names {label : String} (hlabel : isLabel label = true) {meaning : Meaning}
    (hnames : Names label meaning) : meaning = .label label := by
  cases hnames with
  | label _ => rfl
  | number hnumeral =>
    obtain ⟨hsmall, hlarge⟩ := readAnnounced_of_isLabel hlabel
    by_cases houtgrows : Outgrows label.toList 0
    · rw [hlarge houtgrows] at hnumeral
      cases hnumeral
    · rw [hsmall houtgrows] at hnumeral
      cases hnumeral

/-- Behind the sign of another form, a label names nothing. -/
theorem not_names_of_ne {label word : String} (hrefers : RefersTo label word)
    (hne : word ≠ label) (meaning : Meaning) : ¬ Names word meaning := by
  obtain ⟨c, cs, hword, hc, hmark⟩ : ∃ c cs, word.toList = c :: cs ∧ (c = '#' ∨ c = 'r') ∧
      ('#' ∈ word.toList ∨ '+' ∈ word.toList) := by
    rcases hrefers with rfl | rfl | rfl
    · exact absurd rfl hne
    · exact ⟨'#', label.toList, by simp, .inl rfl, .inl (by simp)⟩
    · exact ⟨'r', 'b' :: '+' :: label.toList, by simp, .inr rfl, .inr (by simp)⟩
  intro hnames
  cases hnames with
  | label hlabel =>
    obtain ⟨hhash, hplus, _⟩ := not_mem_of_isLabel hlabel
    exact hmark.elim hhash hplus
  | number hnumeral =>
    have hread : Numeral.readAnnounced word.toList = .malformed := by
      rw [hword]
      rcases hc with rfl | rfl
      · exact Numeral.readAnnounced_of_not_isDigit (by decide) (by decide) (by decide) (by decide) _
      · exact Numeral.readAnnounced_of_not_isDigit (by decide) (by decide) (by decide) (by decide) _
    rw [hread] at hnumeral
    cases hnumeral

/-- On a data line, what refers to a label stands for it. -/
theorem eq_of_termDenotes {equates : Table String} {label word : String} {meaning : Meaning}
    (hlabel : isLabel label = true) (hrefers : RefersTo label word)
    (hword : equates[word]? = none) (hdenotes : TermDenotes equates word meaning) :
    meaning = .label label := by
  rw [TermDenotes, hword, Option.getD_none] at hdenotes
  by_cases heq : word = label
  · rw [heq] at hdenotes
    exact eq_of_names hlabel hdenotes
  · exact absurd hdenotes (not_names_of_ne hrefers heq meaning)

/-- An operand that refers to a label stands for it. -/
theorem eq_of_denotes {equates : Table String} {label word : String} {meaning : Meaning}
    (hlabel : isLabel label = true) (hbase : label ≠ "rb") (hrefers : RefersTo label word)
    (hunbound : equates[label]? = none) (hdenotes : Denotes equates word meaning) :
    meaning = .label label := by
  obtain ⟨hhash, hplus, hminus⟩ := not_mem_of_isLabel hlabel
  have hterm {cs : List Char} (hcs : cs = label.toList)
      (hdenotes : TermDenotes equates (String.ofList cs) meaning) : meaning = .label label := by
    rw [hcs, String.ofList_toList] at hdenotes
    exact eq_of_termDenotes hlabel (.inl rfl) hunbound hdenotes
  have hlist : word.toList = label.toList ∨ word.toList = '#' :: label.toList ∨
      word.toList = 'r' :: 'b' :: '+' :: label.toList := by
    rcases hrefers with rfl | rfl | rfl <;> simp
  cases hdenotes with
  | @immediate cs _ h =>
    rw [String.toList_ofList] at hlist
    rcases hlist with heq | heq | heq
    · exact absurd (heq ▸ List.mem_cons_self) hhash
    · exact hterm (List.cons.inj heq).2 h
    · cases heq
  | base =>
    change ['r', 'b'] = _ ∨ ['r', 'b'] = _ ∨ ['r', 'b'] = _ at hlist
    rcases hlist with heq | heq | heq
    · exact absurd (String.toList_injective heq.symm) hbase
    · cases heq
    · cases heq
  | @plus cs _ h =>
    rw [String.toList_ofList] at hlist
    rcases hlist with heq | heq | heq
    · exact absurd (heq ▸ by simp) hplus
    · cases heq
    · simp only [List.cons.injEq, true_and] at heq
      exact hterm heq h
  | @minus cs _ h =>
    rw [String.toList_ofList] at hlist
    rcases hlist with heq | heq | heq
    · exact absurd (heq ▸ by simp) hminus
    · cases heq
    · cases heq
  | plain hmode h =>
    rcases hlist with heq | heq | heq
    · rw [String.toList_injective heq] at h
      exact eq_of_termDenotes hlabel (.inl rfl) hunbound h
    · simp only [writtenMode, heq, reduceCtorEq] at hmode
    · simp only [writtenMode, heq, reduceCtorEq] at hmode

end Operand

namespace Instruction

/-- Writing out a statement keeps its arguments. -/
private theorem mem_of_unalias {head name word : String} {args rest : List String}
    (hunalias : unalias (head :: args) = name :: rest) (hmem : word ∈ args) : word ∈ rest := by
  unfold unalias at hunalias
  split at hunalias
  case h_1 hwords =>
    obtain ⟨_, rfl⟩ := List.cons.inj hwords
    cases hmem
  case h_2 hwords | h_3 hwords =>
    obtain ⟨_, rfl⟩ := List.cons.inj hwords
    obtain ⟨_, rfl⟩ := List.cons.inj hunalias
    exact hmem
  case h_4 hwords =>
    obtain ⟨_, rfl⟩ := List.cons.inj hwords
    obtain ⟨_, rfl⟩ := List.cons.inj hunalias
    exact List.mem_cons_of_mem _ hmem
  case h_5 hwords =>
    obtain ⟨_, rfl⟩ := List.cons.inj hwords
    obtain ⟨_, rfl⟩ := List.cons.inj hunalias
    rcases List.mem_cons.mp hmem with rfl | hmem
    · exact List.mem_cons_self
    · exact List.mem_cons_of_mem _ (List.mem_cons_of_mem _ hmem)
  case h_6 =>
    obtain ⟨rfl, rfl⟩ := List.cons.inj hunalias
    exact hmem

/-- Where an operand refers to a label, a word of the program stands for that label. -/
theorem exists_meaning_of_mem {equates : Table String} {head label word : String}
    {args : List String} {meanings : List Meaning}
    (hdenotes : Denotes equates (head :: args) meanings)
    (hlabel : Operand.isLabel label = true) (hbase : label ≠ "rb")
    (hrefers : Operand.RefersTo label word) (hmem : word ∈ args)
    (hunbound : equates[label]? = none) (hword : equates[word]? = none) :
    ∃ i : Nat, meanings[i]? = some (.label label) := by
  cases hdenotes with
  | data hargs =>
    obtain ⟨i, hi⟩ := List.getElem?_of_mem hmem
    obtain ⟨meaning, hmeaning, hdenotes⟩ := Outcome.exists_getElem?_of_forall₂ hargs hi
    obtain rfl := Operand.eq_of_termDenotes hlabel hrefers hword hdenotes
    exact ⟨i, hmeaning⟩
  | operation hwords hargs =>
    obtain ⟨i, hi⟩ := List.getElem?_of_mem (mem_of_unalias hwords hmem)
    obtain ⟨meaning, hmeaning, hdenotes⟩ := Outcome.exists_getElem?_of_forall₂ hargs hi
    obtain rfl := Operand.eq_of_denotes hlabel hbase hrefers hunbound hdenotes
    -- The instruction word stands in front of the operands.
    exact ⟨i + 1, hmeaning⟩

end Instruction

/-! ## What a reference is linked to -/

namespace Assembler

/-- An operand of a line refers to a label, and no equate has the name of either of them. -/
def Visit.Refers (v : Visit) (label : String) : Prop :=
  ∃ head args word, v.statement = head :: args ∧ v.before.macros[head]? = none ∧
    word ∈ args ∧ Operand.RefersTo label word ∧ v.start.equates[label]? = none ∧
    v.start.equates[word]? = none

/-- A linked word with a label is the address of that label, as far as it is no numeral that
is too large. -/
theorem code_of_linked {labels : Table Word} {meanings : List Meaning} {e : Entry}
    (hlinked : List.Forall₂ (Linked labels) meanings e.terms) {i : Nat} {label : String}
    (hlink : (i, label) ∈ e.links) {address : Word} (haddress : labels[label]? = some address) :
    (¬ Outgrows label.toList 0 → e.codes[i]? = some address) ∧
      (Outgrows label.toList 0 → e.codes[i]? = some (Numeral.greatest + address)) := by
  obtain ⟨t, ht, hlabel⟩ := Entry.mem_links_iff.mp hlink
  have hcode : e.codes[i]? = some t.value := by
    rw [Entry.codes, List.getElem?_map, ht, Option.map_some]
  obtain ⟨meaning, _, hterm⟩ := Outcome.exists_getElem?_of_forall₂ hlinked.flip ht
  cases hterm with
  | number w => cases hlabel
  | @label _ w address' haddress' hleft =>
    obtain rfl := Option.some.inj hlabel
    obtain rfl := Option.some.inj (haddress'.symm.trans haddress)
    refine ⟨fun hsmall => ?_, fun hlarge => ?_⟩
    · rw [hcode, hleft.zero hsmall, Int64.zero_add]
    · rw [hcode, hleft.greatest hlarge]

/-- An instruction or data line has its place in the listing, and is linked there. -/
theorem exists_entry_of_visit {order : LinkOrder} {source : Source} {a b : Assembler}
    {l : Listing} (hparse : (parse order source).run a = .ok l b) {v : Visit}
    (hv : v ∈ visits source a) {head : String} {args : List String}
    (hstatement : v.statement = head :: args) (hnone : v.before.macros[head]? = none) :
    ∃ e meanings, l.entries[v.before.entries.size]? = some e ∧ e.ip = v.before.here ∧
      Instruction.Denotes v.start.equates (head :: args) meanings ∧
      List.Forall₂ (Linked b.labels) meanings e.terms := by
  obtain ⟨p, c, hlines, hlink⟩ := Course.parse_eq_ok hparse
  obtain ⟨hentries, rfl⟩ := link_eq_ok_iff.mp hlink
  have hchronicle := chronicle_visits source a
  rw [hlines] at hchronicle
  obtain ⟨c', hopens, hprefix⟩ := hchronicle.opens_of_mem hv
  obtain ⟨terms, hok, hne, hpush⟩ := hopens.statement head args hstatement hnone
  -- The entry stays where the line has put it, up to the end of the reading.
  have hd : c.entries.toList[v.before.entries.size]? =
      some ⟨v.number, v.before.here, v.statement, terms⟩ := by
    rw [hpush, Array.toList_push] at hprefix
    obtain ⟨more, hmore⟩ := hprefix
    rw [← hmore]
    simp
  obtain ⟨e, he, hlinked⟩ := Outcome.exists_getElem?_of_forall₂ hentries hd
  obtain ⟨linked, hterms, rfl⟩ := hlinked
  rw [hstatement] at hok
  obtain ⟨meanings, hdenotes, hassembled⟩ := Instruction.denotes_of_assemble hok hne
  exact ⟨_, meanings, (Array.getElem?_toList).symm.trans he, rfl, hdenotes,
    Outcome.forall₂_of_common hassembled.flip hterms fun _ _ _ => linked_of_assembled⟩

/-- Where a line refers to a label, its words are linked with the address of this label. -/
theorem exists_entry_of_refers {order : LinkOrder} {source : Source} {a b : Assembler}
    {l : Listing} (hparse : (parse order source).run a = .ok l b) {v : Visit}
    (hv : v ∈ visits source a) {label : String} (hlabel : Operand.isLabel label = true)
    (hbase : label ≠ "rb") (hrefers : v.Refers label) :
    ∃ e, l.entries[v.before.entries.size]? = some e ∧ e.ip = v.before.here ∧
      (∃ i, (i, label) ∈ e.links) ∧ ∃ address, b.labels[label]? = some address ∧
        ∀ i, (i, label) ∈ e.links →
          (¬ Outgrows label.toList 0 → e.codes[i]? = some address) ∧
            (Outgrows label.toList 0 → e.codes[i]? = some (Numeral.greatest + address)) := by
  obtain ⟨head, args, word, hstatement, hnone, hmem, hword, hunbound, hunbound'⟩ := hrefers
  obtain ⟨e, meanings, he, hip, hdenotes, hlinked⟩ :=
    exists_entry_of_visit hparse hv hstatement hnone
  obtain ⟨i, hi⟩ := Instruction.exists_meaning_of_mem hdenotes hlabel hbase hword hmem hunbound
    hunbound'
  obtain ⟨t, ht, hterm⟩ := Outcome.exists_getElem?_of_forall₂ hlinked hi
  cases hterm with
  | @label _ w address haddress _ =>
    refine ⟨e, he, hip, ⟨i, Entry.mem_links_iff.mpr ⟨_, ht, rfl⟩⟩, address, haddress, ?_⟩
    exact fun j hj => code_of_linked hlinked hj haddress

/-! ## A macro that is called once -/

namespace Once

/-- A source that defines a macro without parameters and calls it. -/
def linesOf (body : List String) : List String := ".macro m" :: body ++ [".endm", "m"]

/-- An assembler that has read the definition up to the end of a body. -/
def defining (body : List String) : Assembler :=
  { fresh {} with macros := (∅ : Table Macro).insert "m" ⟨2, [], body.toArray⟩ }

/-- A line that belongs to the body of a macro. -/
structure BodyLine (line : String) : Prop where
  stripped : stripped line = line
  opens : ((Text.fields line.toList).map String.ofList).head? ≠ some ".macro"
  closes : ((Text.fields line.toList).map String.ofList).head? ≠ some ".endm"

/-- A line is added to the body of the macro. -/
private theorem macros_extend (body : List String) (line : String) :
    ((∅ : Table Macro).insert "m" ⟨2, [], body.toArray⟩).alter "m"
        (Option.map fun m : Macro => { m with body := m.body.push line }) =
      (∅ : Table Macro).insert "m" ⟨2, [], (body ++ [line]).toArray⟩ := by
  apply Std.ExtTreeMap.ext_getElem?
  intro name
  rw [Std.ExtTreeMap.getElem?_alter]
  by_cases hname : "m" = name
  · subst hname
    simp
  · simp [hname]

/-- The first line begins the definition. -/
theorem run_openLine : (readSourceLine 1 ".macro m" none).run (fresh {}) =
    .ok (some "m") (defining []) := rfl

/-- Each line of the body is noted. -/
theorem run_bodyLine {line : String} (hline : BodyLine line) (number : Nat) (body : List String) :
    (readSourceLine number line (some "m")).run (defining body) =
      .ok (some "m") (defining (body ++ [line])) := by
  unfold readSourceLine
  split
  · next hwords => exact absurd (congrArg List.head? hwords) hline.opens
  · next hwords => exact absurd (congrArg List.head? hwords) hline.closes
  · have hextend : (extendMacro "m" line).run (defining body) =
        .ok () (defining (body ++ [line])) := by
      rw [defining, defining, ← macros_extend]
      rfl
    dsimp only
    rw [liftM_pass, EStateM.run_bind, hextend]
    rfl

/-- The lines of a macro are kept one by one. -/
theorem run_body {lines : List String} (hlines : ∀ line ∈ lines, BodyLine line)
    (body : List String) (p : Position) (hopened : p.opened = some "m") (rest : List String) :
    ∃ q : Position, q.number = p.number + lines.length ∧ q.opened = some "m" ∧
      (readLines p (lines ++ rest)).run (defining body) =
        (readLines q rest).run (defining (body ++ lines)) ∧
      ∀ v ∈ visitsOfLines q rest (defining (body ++ lines)),
        v ∈ visitsOfLines p (lines ++ rest) (defining body) := by
  induction lines generalizing body p with
  | nil => exact ⟨p, rfl, hopened, by simp⟩
  | cons line lines ih =>
    obtain ⟨hline, hlines⟩ := List.forall_mem_cons.mp hlines
    obtain ⟨q, hnumber, hq, hrun, hvisits⟩ :=
      ih hlines (body ++ [line]) ⟨p.number + 1, line, some "m"⟩ rfl
    rw [List.append_assoc, List.singleton_append] at hrun hvisits
    refine ⟨q, ?_, hq, ?_, fun v hv => ?_⟩
    · rw [hnumber, List.length_cons]
      dsimp only
      omega
    · rw [← hrun, List.cons_append, readLines, hline.stripped, hopened, EStateM.run_bind,
        Course.run_within, run_bodyLine hline]
    · rw [List.cons_append, visitsOfLines, hline.stripped, hopened]
      exact mem_thenVisits_right (run_bodyLine hline _ _) (hvisits v hv) _

/-- The last line ends the definition. -/
theorem run_closeLine (number : Nat) (a : Assembler) :
    (readSourceLine number ".endm" (some "m")).run a = .ok none a := rfl

/-- The name of the macro calls it. -/
theorem run_opening_call (body : List String) (number : Nat) :
    (opening number "m").run (defining body) =
      .ok (some ⟨⟨2, [], body.toArray⟩, "m", []⟩) ((defining body).numbered number) := by
  have hwords : ((defining body).numbered number).wordsOf "m" = .ok ["m"] := by
    rw [wordsOf_of_not_mem (by decide) (by decide)]
    rfl
  have hunbound : ((defining body).numbered number).equates["m"]? = none :=
    (Bare.fresh.numbered number).unbound "m" (by decide)
  have hcallee : ((defining body).numbered number).macros["m"]? =
      some ⟨2, [], body.toArray⟩ := Std.ExtTreeMap.getElem?_insert_self
  exact run_opening_of_name hwords (by decide) rfl (by simpa using hunbound) hcallee

/-- A call reads the lines of the macro. -/
theorem run_call {body : List String} {number : Nat} {c : Assembler}
    (hbody : (readBody (readLine 999999) "m" 2 body).run ((defining body).numbered number) =
      .ok () c) :
    (readLine maxDepth number "m").run (defining body) =
      .ok () (Course.unbound ((defining body).numbered number) c) := by
  have hdepth : maxDepth = 999999 + 1 := rfl
  have hbound : Course.bound [] ((defining body).numbered number) =
      (defining body).numbered number := rfl
  rw [hdepth, readLine, readLineWith_eq_bind, EStateM.run_bind, run_opening_call]
  dsimp only
  rw [performCall, callWith, if_neg (by simp), Course.run_withEquates]
  dsimp only
  rw [List.zip_nil_left, hbound, hbody]

/-- The whole source is read if the lines of its macro can be read. -/
theorem run_lines {body : List String} (hlines : ∀ line ∈ body, BodyLine line) {c : Assembler}
    (hbody : (readBody (readLine 999999) "m" 2 body).run
      ((defining body).numbered (body.length + 3)) = .ok () c) :
    (readLines {} (linesOf body)).run (fresh {}) =
      .ok ⟨body.length + 3, "m", none⟩
        (Course.unbound ((defining body).numbered (body.length + 3)) c) := by
  have hopen : stripped ".macro m" = ".macro m" := rfl
  have hclose : stripped ".endm" = ".endm" := rfl
  have hcall : stripped "m" = "m" := rfl
  obtain ⟨q, hnumber, hq, hrun, _⟩ :=
    run_body hlines [] ⟨1, ".macro m", some "m"⟩ rfl [".endm", "m"]
  have hsource : (readSourceLine (body.length + 3) "m" none).run (defining body) =
      .ok none (Course.unbound ((defining body).numbered (body.length + 3)) c) :=
    run_readSourceLine_of_ne (by decide) (by decide) (run_call hbody)
  have hlast : q.number + 1 + 1 = body.length + 3 := by
    rw [hnumber]
    dsimp only
    omega
  rw [List.nil_append] at hrun
  rw [linesOf, List.cons_append, readLines, hopen, EStateM.run_bind, Course.run_within,
    run_openLine]
  dsimp only
  rw [hrun, readLines, hclose, hq, EStateM.run_bind, Course.run_within, run_closeLine]
  dsimp only
  rw [readLines, hcall, hlast, EStateM.run_bind, Course.run_within, hsource]
  rfl

/-- The lines of the macro are visited in the course of the source. -/
theorem mem_visitsOfLines {body : List String} (hlines : ∀ line ∈ body, BodyLine line)
    {v : Visit}
    (hv : v ∈ visitsOfBody (readLine 999999) (visitsOfLine 999999 (some "m")) "m" 2 body
      ((defining body).numbered (body.length + 3))) :
    v ∈ visitsOfLines {} (linesOf body) (fresh {}) := by
  have hopen : stripped ".macro m" = ".macro m" := rfl
  have hclose : stripped ".endm" = ".endm" := rfl
  have hcall : stripped "m" = "m" := rfl
  have hdepth : maxDepth = 999999 + 1 := rfl
  obtain ⟨q, hnumber, hq, _, hvisits⟩ :=
    run_body hlines [] ⟨1, ".macro m", some "m"⟩ rfl [".endm", "m"]
  have hlast : q.number + 1 + 1 = body.length + 3 := by
    rw [hnumber]
    dsimp only
    omega
  rw [List.nil_append] at hvisits
  rw [linesOf, List.cons_append, visitsOfLines, hopen]
  refine mem_thenVisits_right run_openLine (hvisits v ?_) _
  rw [visitsOfLines, hclose, hq]
  refine mem_thenVisits_right (run_closeLine _ _) ?_ _
  rw [visitsOfLines, hcall, hlast]
  refine mem_thenVisits_left ?_ _ _
  change v ∈ visitsOfSourceLine (body.length + 3) "m" none (defining body)
  have hopened : (Visit.mk none (body.length + 3) "m" (defining body)).opened = _ :=
    run_opening_call body (body.length + 3)
  rw [visitsOfSourceLine, if_neg (by decide), hdepth, visitsOfLine, visitsBehind, hopened]
  refine List.mem_cons_of_mem _ ?_
  rw [visitsOfCall, if_neg (by simp)]
  exact hv

/-- A line of a macro that calls no other one adds an entry. -/
theorem run_localLine {depth number : Nat} {line head : String} {words args : List String}
    {terms : List Term} {a b : Assembler} (hwords : (a.numbered number).wordsOf line = .ok words)
    (hequate : words.head? ≠ some ".equ")
    (hlabels : (defineLabels words).run (a.numbered number) = .ok (head :: args) b)
    (hunbound : ∀ word ∈ head :: args, b.equates[word]? = none) (hnone : b.macros[head]? = none)
    (hterms : Instruction.assemble b.equates (head :: args) = .ok terms) (hne : terms ≠ []) :
    (readLine depth number line).run a =
      .ok () (b.added ⟨number, b.here, head :: args, terms⟩) := by
  obtain ⟨call, hcall⟩ := exists_readLine_eq depth
  rw [hcall, run_readLineWith hwords hequate hlabels (map_substitute_of_none hunbound) hnone]
  exact run_emit_of_ok hterms hne

/-- A jump to a label, before it is linked. -/
theorem assemble_jump (a : Assembler) {label word : String}
    (hword : word.toList = '#' :: label.toList) (hone : a.equates["1"]? = none)
    (hunbound : a.equates[label]? = none)
    (hlabel : Operand.term label = .ok ⟨0, some label⟩) :
    Instruction.assemble a.equates ["jump", word] =
      .ok [⟨1105, none⟩, ⟨1, none⟩, ⟨0, some label⟩] := by
  have hfirst : Operand.read a.equates "#1" = .ok (.immediate, ⟨1, none⟩) := by
    change (Operand.resolve a.equates "1" >>= fun t => .ok (Mode.immediate, t)) = _
    rw [Operand.resolve, hone]
    rfl
  have hsecond : Operand.read a.equates word = .ok (.immediate, ⟨0, some label⟩) := by
    rw [Operand.read, hword]
    change (Operand.resolve a.equates (String.ofList label.toList) >>= fun t =>
      .ok (Mode.immediate, t)) = _
    rw [String.ofList_toList, Operand.resolve, hunbound, Option.getD_none, hlabel]
    rfl
  have hcode : Instruction.encode .jumpTrue [.immediate, .immediate] = 1105 := by decide
  change Instruction.assembleOperation a.equates .jumpTrue ["#1", word] = _
  rw [Instruction.assembleOperation_eq_ok_iff, ← hcode]
  exact ⟨_, .cons hfirst (.cons hsecond .nil), rfl, fun h => absurd h (by decide), rfl⟩

/-! ### The label and the reference on different lines -/

/-- A body that defines a local label in one line and uses it in the next. -/
def apart : List String := ["@x: hlt", "jump #@x"]

/-- The entries of the macro before they are linked. -/
def haltEntry : Entry := ⟨2, 0, ["hlt"], [⟨99, none⟩]⟩

/-- The entry of the jump, to a label of its own line. -/
def jumpEntry : Entry :=
  ⟨3, 1, ["jump", "#m_3_x"], [⟨1105, none⟩, ⟨1, none⟩, ⟨0, some "m_3_x"⟩]⟩

/-- An assembler that has read the first line of the macro. -/
def haltRead : Assembler :=
  (((defining apart).numbered 5).numbered 2).withLabels ["m_2_x"] |>.added haltEntry

/-- The first line of the body defines its label. -/
theorem run_haltLine (depth : Nat) :
    (readLine depth 2 "m_2_x: hlt").run ((defining apart).numbered 5) = .ok () haltRead := by
  have hwords : (((defining apart).numbered 5).numbered 2).wordsOf "m_2_x: hlt" =
      .ok ["m_2_x:", "hlt"] := by
    rw [wordsOf_of_not_mem (by decide) (by decide)]
    rfl
  have hlabels : (defineLabels ["m_2_x:", "hlt"]).run (((defining apart).numbered 5).numbered 2) =
      .ok ["hlt"] ((((defining apart).numbered 5).numbered 2).withLabels ["m_2_x"]) :=
    run_defineLabels_of_new ⟨by decide, fun _ _ => Std.ExtTreeMap.getElem?_empty⟩
  refine run_localLine hwords (by decide) hlabels ?_ ?_ rfl (by decide)
  · intro word hword
    obtain rfl := List.mem_singleton.mp hword
    exact ((Bare.fresh.numbered 5).numbered 2).unbound "hlt" (by decide)
  · exact Table.getElem?_foldl_insert [("m", _)] ∅ (by decide)

/-- An assembler that has read the whole macro. -/
def jumpRead : Assembler := (haltRead.numbered 3).added jumpEntry

/-- The second line of the body uses another label. -/
theorem run_jumpLine (depth : Nat) :
    (readLine depth 3 "jump #m_3_x").run haltRead = .ok () jumpRead := by
  have hunbound (word : String) (hword : isCapital word = false) :
      (haltRead.numbered 3).equates[word]? = none :=
    (((Bare.fresh.numbered 5).numbered 2).numbered 3).unbound word hword
  have hwords : (haltRead.numbered 3).wordsOf "jump #m_3_x" = .ok ["jump", "#m_3_x"] := by
    rw [wordsOf_of_not_mem (by decide) (by decide)]
    rfl
  have hterms : Instruction.assemble (haltRead.numbered 3).equates jumpEntry.words =
      .ok jumpEntry.terms :=
    assemble_jump _ rfl (hunbound "1" (by decide)) (hunbound "m_3_x" (by decide)) rfl
  refine run_localLine hwords (by decide) (run_defineLabels_of_none rfl _ _) ?_ ?_ hterms
    (by decide)
  · intro word hword
    exact hunbound word (by revert hword; revert word; decide)
  · exact Table.getElem?_foldl_insert [("m", _)] ∅ (by decide)

/-- The body is read to its end. -/
private theorem run_apart (depth : Nat) :
    (readBody (readLine depth) "m" 2 apart).run ((defining apart).numbered 5) =
      .ok () jumpRead := by
  have hfirst : localize "m" 2 "@x: hlt" = "m_2_x: hlt" := rfl
  have hsecond : localize "m" 3 "jump #@x" = "jump #m_3_x" := rfl
  rw [apart, readBody, hfirst, EStateM.run_bind, Course.run_within, ← apart, run_haltLine]
  dsimp only
  rw [readBody, hsecond, EStateM.run_bind, Course.run_within, run_jumpLine]
  rfl

/-- Both lines can be in a body. -/
private theorem bodyLine_of_mem_apart : ∀ line ∈ apart, BodyLine line := by
  refine List.forall_mem_cons.mpr ⟨⟨rfl, by decide, by decide⟩, ?_⟩
  exact List.forall_mem_singleton.mpr ⟨rfl, by decide, by decide⟩

/-- A source that defines the macro and calls it. -/
def apartSource : Source := { text := ".macro m\n@x: hlt\njump #@x\n.endm\nm" }

/-- An assembler that has read the whole source. -/
def apartRead : Assembler := Course.unbound ((defining apart).numbered 5) jumpRead

/-- The source is read to its end. -/
private theorem run_apartLines :
    (readLines {} apartSource.lines).run (fresh {}) = .ok ⟨5, "m", none⟩ apartRead := by
  have hlines : apartSource.lines = linesOf apart := rfl
  rw [hlines]
  exact run_lines bodyLine_of_mem_apart (run_apart 999999)

/-- The label of the second line is not defined. -/
private theorem labels_apartRead : apartRead.labels["m_3_x"]? = none := by
  have hlabels := getElem?_withLabels (((defining apart).numbered 5).numbered 2) ["m_2_x"] "m_3_x"
  rw [if_neg (by decide)] at hlabels
  exact hlabels.trans Std.ExtTreeMap.getElem?_empty

/-- The label of the second line is missing. -/
private theorem run_link_apart (order : LinkOrder) :
    ∃ b, (link order).run apartRead = .error (.labelMissing "m_3_x") b := by
  have hentries : apartRead.entries.toList = [haltEntry, jumpEntry] := rfl
  refine exists_link_error order labels_apartRead (d := jumpEntry) (i := 2) ?_ (by decide) ?_
  · exact hentries ▸ List.mem_cons_of_mem haltEntry List.mem_cons_self
  · have hlinks : ∀ e ∈ [haltEntry, jumpEntry], ∀ link ∈ e.links, link.2 = "m_3_x" := by decide
    intro e he i other hmem _
    exact hlinks e (hentries ▸ he) _ hmem

/-! ### The label and the reference on the same line -/

/-- A body that defines and uses a local label in one line. -/
def own : List String := ["@x: jump #@x"]

/-- The entry of the macro, which is linked already, since its address is zero. -/
def ownEntry : Entry :=
  ⟨2, 0, ["jump", "#m_2_x"], [⟨1105, none⟩, ⟨1, none⟩, ⟨0, some "m_2_x"⟩]⟩

/-- The visit of the only line of the macro. -/
def ownVisit : Visit := ⟨some "m", 2, "@x: jump #@x", (defining own).numbered 4⟩

/-- An assembler that has read this line. -/
def ownRead : Assembler := (ownVisit.start.withLabels ["m_2_x"]).added ownEntry

/-- No word without a capital letter is an equate. -/
theorem unbound_ownVisit {word : String} (hword : isCapital word = false) :
    ownVisit.start.equates[word]? = none :=
  ((Bare.fresh.numbered 4).numbered 2).unbound word hword

/-- The words of the line. -/
theorem wordsOf_ownVisit : ownVisit.start.wordsOf ownVisit.line =
    .ok ["m_2_x:", "jump", "#m_2_x"] := by
  have hline : ownVisit.line = "m_2_x: jump #m_2_x" := rfl
  rw [hline, wordsOf_of_not_mem (by decide) (by decide)]
  rfl

/-- The body is read to its end. -/
private theorem run_own (depth : Nat) :
    (readBody (readLine depth) "m" 2 own).run ((defining own).numbered 4) = .ok () ownRead := by
  have hlabels : (defineLabels ["m_2_x:", "jump", "#m_2_x"]).run ownVisit.start =
      .ok ["jump", "#m_2_x"] (ownVisit.start.withLabels ["m_2_x"]) :=
    run_defineLabels_of_new ⟨by decide, fun _ _ => Std.ExtTreeMap.getElem?_empty⟩
  have hterms : Instruction.assemble (ownVisit.start.withLabels ["m_2_x"]).equates ownEntry.words =
      .ok ownEntry.terms :=
    assemble_jump _ rfl (unbound_ownVisit (by decide)) (unbound_ownVisit (by decide)) rfl
  have hline : (readLine depth 2 ownVisit.line).run ((defining own).numbered 4) =
      .ok () ownRead := by
    refine run_localLine wordsOf_ownVisit (by decide) hlabels ?_ ?_ hterms (by decide)
    · intro word hword
      exact unbound_ownVisit (by revert hword; revert word; decide)
    · exact Table.getElem?_foldl_insert [("m", _)] ∅ (by decide)
  have hlocal : localize "m" 2 "@x: jump #@x" = ownVisit.line := rfl
  rw [own, readBody, hlocal, EStateM.run_bind, Course.run_within, ← own, hline]
  rfl

/-- The line can be in a body. -/
theorem bodyLine_of_mem_own : ∀ line ∈ own, BodyLine line :=
  List.forall_mem_singleton.mpr ⟨rfl, by decide, by decide⟩

/-- A source that defines the macro and calls it. -/
def ownSource : Source := { text := ".macro m\n@x: jump #@x\n.endm\nm" }

/-- The label is defined at address zero, where the jump is. -/
private theorem run_ownSource (order : LinkOrder) :
    ∃ b, (parse order ownSource).run ({} : Assembler) = .ok ⟨#[ownEntry]⟩ b := by
  have hlines : (readLines {} ownSource.lines).run (fresh {}) =
      .ok ⟨4, "m", none⟩ (Course.unbound ((defining own).numbered 4) ownRead) :=
    run_lines bodyLine_of_mem_own (run_own 999999)
  have hlabel : ownRead.labels["m_2_x"]? = some 0 := by
    have hlabels := getElem?_withLabels ownVisit.start ["m_2_x"] "m_2_x"
    rw [if_pos (by decide)] at hlabels
    exact hlabels
  have hentry : Entry.Linked ownRead.labels ownEntry ownEntry :=
    ⟨ownEntry.terms, .cons (.plain 1105) (.cons (.plain 1) (.cons (.label hlabel 0) .nil)), rfl⟩
  have hlink : (link order).run (Course.unbound ((defining own).numbered 4) ownRead) =
      .ok ⟨#[ownEntry]⟩ _ := link_eq_ok_iff.mpr ⟨.cons hentry .nil, rfl⟩
  exact ⟨_, run_parse rfl rfl hlines rfl hlink⟩

/-- The line is visited when the source is read. -/
private theorem mem_visits_ownSource : ownVisit ∈ visits ownSource {} := by
  have hlines : ownSource.lines = linesOf own := rfl
  rw [visits, hlines]
  refine mem_visitsOfLines bodyLine_of_mem_own ?_
  rw [own, visitsOfBody]
  exact mem_thenVisits_left (mem_visitsOfLine _ _ _ _ _) _ _

/-- The line uses the label that it defines. -/
private theorem refers_ownVisit : ownVisit.Refers "m_2_x" := by
  have hstatement : ownVisit.statement = ["jump", "#m_2_x"] := by
    rw [Visit.statement, Visit.labels, Visit.words_of_ok wordsOf_ownVisit, if_neg (by decide)]
    change ["jump", "#m_2_x"].map ownVisit.start.substitute = _
    simp only [List.map_cons, List.map_nil, substitute]
    rw [unbound_ownVisit (by decide), unbound_ownVisit (by decide)]
    rfl
  refine ⟨"jump", ["#m_2_x"], "#m_2_x", hstatement, ?_, List.mem_singleton_self _, .inr (.inl rfl),
    unbound_ownVisit (by decide), unbound_ownVisit (by decide)⟩
  exact Table.getElem?_foldl_insert [("m", _)] ∅ (by decide)

end Once

/-! ## What local labels are good for -/

/-- A local name is not that of the relative base. -/
private theorem localName_ne_base (name : String) (number : Nat) (x : String) :
    localName name number x ≠ "rb" := by
  intro heq
  have hmem : '_' ∈ (localName name number x).toList := by simp [localName]
  rw [heq] at hmem
  revert hmem
  decide

/-- How far local labels carry. In the words of a macro, an at sign stands for the name of the
macro and the number of the line, so that two local labels of a macro are the same if and only
if they have the same name and stand on the same line. A source fails on a duplicated label if
and only if one stands twice in front of the lines that are read, where the same line counts
each time that its macro is called. A label that stands in front of a line is never missing. If
the source is assembled, a word that refers to a local label has the address of a line with the
label of its own line in front. So it has its own address if the label is defined on the same
line, while a label on another line of the macro is another one. -/
theorem local_labels_of_parse (order : LinkOrder) (source : Source) (a : Assembler) :
    (∀ (v : Visit) (name : String), v.scope = some name → name.toList.all isWordChar = true →
      '\'' ∉ v.written.toList → '$' ∉ v.written.toList →
      v.words = (writtenWords v.written).map (localize name v.number) ∧
        v.labels = (frontLabels (writtenWords v.written)).map (localize name v.number)) ∧
    (∀ name number x, '@' ∉ x.toList →
      localize name number ("@" ++ x) = localName name number x) ∧
    (∀ name n n' x x', localName name n x = localName name n' x' ↔ n = n' ∧ x = x') ∧
    ((∃ e b, (parse order source).run a = .error e b ∧ e.root = .labelDuplicate) ↔
      ¬ ((visits source a).flatMap Visit.labels).Nodup) ∧
    (∀ e b label, (parse order source).run a = .error e b → e.root = .labelMissing label →
      label ∉ (visits source a).flatMap Visit.labels) ∧
    ∀ l b, (parse order source).run a = .ok l b → ∀ v ∈ visits source a, ∀ name x label,
      v.scope = some name → label = localName name v.number x → Operand.isLabel label = true →
      v.Refers label →
      ∃ e, l.entries[v.before.entries.size]? = some e ∧ e.ip = v.before.here ∧
        (∃ i, (i, label) ∈ e.links) ∧
        ∃ u ∈ visits source a, label ∈ u.labels ∧
          (label ∈ v.labels → u.before.here = e.ip) ∧
          ∀ i, (i, label) ∈ e.links →
            (¬ Outgrows label.toList 0 → e.codes[i]? = some u.before.here) ∧
              (Outgrows label.toList 0 →
                e.codes[i]? = some (Numeral.greatest + u.before.here)) := by
  refine ⟨?_, fun name number x hat => localize_at hat name number, fun _ _ _ _ _ => localName_inj,
    parse_duplicate_iff order source a, fun _ _ _ => not_mem_of_parse_missing, ?_⟩
  · intro v name hscope hname hquote hdollar
    have hwords := Visit.words_of_scope hscope hname hquote hdollar
    refine ⟨hwords, ?_⟩
    rw [Visit.labels, hwords, frontLabels_localize]
  · rintro l b hparse v hv name x label hscope rfl hlabel hrefers
    obtain ⟨e, he, hip, hlinks, address, haddress, hcodes⟩ :=
      exists_entry_of_refers hparse hv hlabel (localName_ne_base name v.number x) hrefers
    obtain ⟨u, hu, hmem, rfl⟩ := (labels_iff_of_parse hparse _ address).mp haddress
    refine ⟨e, he, hip, hlinks, u, hu, hmem, fun hown => ?_, hcodes⟩
    -- The line defines the label itself, which has one address only.
    have hhere := (labels_iff_of_parse hparse _ v.before.here).mpr ⟨v, hv, hown, rfl⟩
    rw [haddress] at hhere
    rw [hip]
    exact Option.some.inj hhere

namespace Once

/-- A macro that defines a label on one line and refers to it on another one cannot be
assembled. -/
theorem local_label_missing :
    ∃ b, (parse .ascending apartSource).run ({} : Assembler) =
      .error (.atLine 5 "m" (.labelMissing "m_3_x")) b := by
  obtain ⟨b, hlink⟩ := run_link_apart .ascending
  refine ⟨b, ?_⟩
  have hfinish : (finish .ascending apartSource ⟨5, "m", none⟩).run apartRead =
      .error (.labelMissing "m_3_x") b := hlink
  rw [Course.run_parse_eq, run_apartLines]
  dsimp only
  rw [Course.run_within, hfinish]

/-- On its own line, the label is the address of the jump. -/
theorem local_labels_of_own_line :
    ∃ l b, (parse .ascending ownSource).run ({} : Assembler) = .ok l b ∧ ∃ e,
      l.entries[0]? = some e ∧
      (∃ i, (i, "m_2_x") ∈ e.links) ∧
      ∀ i, (i, "m_2_x") ∈ e.links → e.codes[i]? = some e.ip := by
  obtain ⟨b, hparse⟩ := run_ownSource .ascending
  have hsmall : ¬ Outgrows "m_2_x".toList 0 := by
    rw [← Numeral.magnitude_eq_overflow_iff (by decide)]
    decide
  have howns : "m_2_x" ∈ ownVisit.labels := by
    rw [Visit.labels, Visit.words_of_ok wordsOf_ownVisit]
    decide
  obtain ⟨_, _, _, _, _, hlinked⟩ := local_labels_of_parse .ascending ownSource {}
  obtain ⟨e, he, _, hlinks, u, _, _, hown, hcodes⟩ :=
    hlinked _ b hparse ownVisit mem_visits_ownSource "m" "x" "m_2_x" rfl rfl rfl refers_ownVisit
  refine ⟨_, b, hparse, e, he, hlinks, fun i hi => ?_⟩
  rw [(hcodes i hi).1 hsmall, hown howns]

end Once

end Assembler

end TapeMachine
