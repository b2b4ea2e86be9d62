import Mathlib.Algebra.Group.Nat.Defs
import TapeMachine.Proofs.Assembled
import TapeMachine.Proofs.Numerals
import TapeMachine.Proofs.PlainLines

/-!
# Linking

A word of a line stands for a number or for the address of a label. Assembling keeps
numbers, and leaves zero in the place of an address, which linking adds. So every word
gets the value that it stands for, with one exception: a label that begins with digits
behind underscores, and is too large as a numeral, is counted from the greatest word.
-/

namespace TapeMachine

open Numeral (Outgrows)

/-! ## What words stand for -/

/-- What a word of a line stands for. -/
inductive Meaning where
  | number (w : Word)
  /-- The address of a label. -/
  | label (name : String)

namespace Operand

/-- A term is a numeral or a label. -/
inductive Names : String → Meaning → Prop where
  | number {text : String} {w : Word} (hnumeral : Numeral.readAnnounced text.toList = .value w) :
    Names text (.number w)
  | label {text : String} (hlabel : isLabel text = true) : Names text (.label text)

/-- A term of a line stands for what it names, or for what its equate does. -/
abbrev TermDenotes (equates : Table String) (word : String) (meaning : Meaning) : Prop :=
  Names ((equates[word]?).getD word) meaning

/-- An operand stands for what its term does, in whatever mode. Behind a minus sign stands
a number, which is negated. -/
inductive Denotes (equates : Table String) : String → Meaning → Prop where
  | immediate {cs : List Char} {meaning : Meaning}
    (hterm : TermDenotes equates (String.ofList cs) meaning) :
    Denotes equates (String.ofList ('#' :: cs)) meaning
  | base : Denotes equates "rb" (.number 0)
  | plus {cs : List Char} {meaning : Meaning}
    (hterm : TermDenotes equates (String.ofList cs) meaning) :
    Denotes equates (String.ofList ('r' :: 'b' :: '+' :: cs)) meaning
  | minus {cs : List Char} {w : Word}
    (hterm : TermDenotes equates (String.ofList cs) (.number w)) :
    Denotes equates (String.ofList ('r' :: 'b' :: '-' :: cs)) (.number (-w))
  | plain {word : String} {meaning : Meaning} (hmode : writtenMode word = .position)
    (hterm : TermDenotes equates word meaning) : Denotes equates word meaning

end Operand

/-- What the words of a program stand for that a line is assembled into: the terms of a data
line, or an instruction word and the operands of an operation. -/
inductive Instruction.Denotes (equates : Table String) : List String → List Meaning → Prop where
  | data {args : List String} {meanings : List Meaning}
    (hargs : List.Forall₂ (Operand.TermDenotes equates) args meanings) :
    Denotes equates (".data" :: args) meanings
  | operation {words args : List String} {op : Opcode} {meanings : List Meaning}
    (hwords : unalias words = op.mnemonic :: args)
    (hargs : List.Forall₂ (Operand.Denotes equates) args meanings) :
    Denotes equates words (.number (encode op (args.map Operand.writtenMode)) :: meanings)

/-! ## Labels as numerals -/

namespace Operand

/-- What is left in the place of an address by reading a label as a numeral. -/
structure Leftover (name : String) (w : Word) : Prop where
  zero : ¬ Outgrows name.toList 0 → w = 0
  greatest : Outgrows name.toList 0 → w = Numeral.greatest

/-- A label has a first character, with which a label may start. -/
private theorem exists_toList_of_isLabel {name : String} (hlabel : isLabel name = true) :
    ∃ c cs, name.toList = c :: cs ∧ startsLabel c = true := by
  unfold isLabel at hlabel
  split at hlabel
  · cases hlabel
  · next c cs hcs =>
    rw [Bool.and_eq_true] at hlabel
    exact ⟨c, cs, hcs, hlabel.1⟩

/-- What starts a label starts no number. -/
theorem ne_of_startsLabel {c : Char} (hc : startsLabel c = true) :
    c ≠ '+' ∧ c ≠ '-' ∧ c ≠ '0' ∧ (c ≠ '_' → ¬ c.isDigit = true) := by
  refine ⟨?_, ?_, ?_, ?_⟩
  · rintro rfl
    cases hc
  · rintro rfl
    cases hc
  · rintro rfl
    cases hc
  · intro hmark hdigit
    have hletter : c.isAlpha = true := by simpa [startsLabel, hmark] using hc
    rw [Numeral.isAlpha_of_isDigit hdigit] at hletter
    cases hletter

/-- No label is a numeral, since it begins with a letter or an underscore. -/
theorem announcedMagnitude_of_startsLabel {c : Char} (hc : startsLabel c = true) (cs : List Char) :
    (¬ Outgrows (c :: cs) 0 → Numeral.announcedMagnitude (c :: cs) = .malformed) ∧
      (Outgrows (c :: cs) 0 → Numeral.announcedMagnitude (c :: cs) = .overflow) := by
  obtain ⟨_, _, hzero, hdigit⟩ := ne_of_startsLabel hc
  have hover : Numeral.magnitude 10 true 0 (c :: cs) = .overflow ↔ Outgrows (c :: cs) 0 :=
    Numeral.magnitude_eq_overflow_iff (by decide)
  unfold Numeral.announcedMagnitude
  rw [Numeral.announced_of_ne hzero, List.isEmpty_cons, if_neg (by decide)]
  dsimp only
  constructor
  · intro hsmall
    cases hread : Numeral.magnitude 10 true 0 (c :: cs) with
    | overflow => exact absurd (hover.mp hread) hsmall
    | malformed => rfl
    | value n =>
      by_cases hmark : c = '_'
      · subst hmark
        have hseparated : Numeral.wellSeparated ('_' :: cs) = false := by
          unfold Numeral.wellSeparated Numeral.separatorsOk
          cases cs <;> rfl
        simp [hseparated]
      · rw [Numeral.magnitude_of_not_isDigit hmark (hdigit hmark)] at hread
        cases hread
  · intro hlarge
    rw [hover.mpr hlarge]

/-- A label is malformed as a numeral, unless it begins with digits that are too large. -/
theorem readAnnounced_of_isLabel {name : String} (hlabel : isLabel name = true) :
    (¬ Outgrows name.toList 0 → Numeral.readAnnounced name.toList = .malformed) ∧
      (Outgrows name.toList 0 →
        Numeral.readAnnounced name.toList = .overflow Numeral.greatest) := by
  obtain ⟨c, cs, hname, hc⟩ := exists_toList_of_isLabel hlabel
  obtain ⟨hplus, hminus, _⟩ := ne_of_startsLabel hc
  obtain ⟨hsmall, hlarge⟩ := announcedMagnitude_of_startsLabel hc cs
  rw [hname]
  unfold Numeral.readAnnounced
  rw [Numeral.signOf_of_ne hplus hminus]
  dsimp only
  constructor
  · intro h
    rw [hsmall h]
    rfl
  · intro h
    rw [hlarge h]
    rfl

/-- What a term is assembled into. -/
inductive Assembled : Meaning → Term → Prop where
  | number (w : Word) : Assembled (.number w) ⟨w, none⟩
  | label {name : String} {w : Word} (hleft : Leftover name w) :
    Assembled (.label name) ⟨w, some name⟩

/-- A term is what its word names. -/
theorem term_eq_ok {word : String} {t : Term} (hterm : term word = .ok t) :
    ∃ meaning, Names word meaning ∧ Assembled meaning t := by
  unfold term at hterm
  split at hterm
  · next w hread =>
    cases hterm
    exact ⟨.number w, .number hread, .number w⟩
  · next w hread =>
    split at hterm
    · next hlabel =>
      cases hterm
      obtain ⟨hsmall, hlarge⟩ := readAnnounced_of_isLabel hlabel
      refine ⟨.label word, .label hlabel, .label ⟨fun h => ?_, fun h => ?_⟩⟩
      · rw [hsmall h] at hread
        cases hread
      · rw [hlarge h] at hread
        cases hread
        rfl
    · cases hterm
  · next hread =>
    split at hterm
    · next hlabel =>
      cases hterm
      obtain ⟨hsmall, hlarge⟩ := readAnnounced_of_isLabel hlabel
      refine ⟨.label word, .label hlabel, .label ⟨fun _ => rfl, fun h => ?_⟩⟩
      rw [hlarge h] at hread
      cases hread
    · cases hterm

/-- A resolved term is what its word denotes. -/
theorem resolve_eq_ok {equates : Table String} {word : String} {t : Term}
    (hresolve : resolve equates word = .ok t) :
    ∃ meaning, TermDenotes equates word meaning ∧ Assembled meaning t :=
  term_eq_ok hresolve

/-- An operand is assembled into what it stands for. -/
theorem read_eq_ok {equates : Table String} {word : String} {operand : Mode × Term}
    (hread : read equates word = .ok operand) :
    ∃ meaning, Denotes equates word meaning ∧ Assembled meaning operand.2 := by
  have hmode := mode_of_read hread
  have hof {cs : List Char} (hword : word.toList = cs) : word = String.ofList cs := by
    rw [← hword, String.ofList_toList]
  unfold read at hread
  split at hread
  case h_1 cs hword =>
    obtain ⟨t, ht, hok⟩ := Outcome.bind_eq_ok_iff.mp hread
    cases hok
    obtain ⟨meaning, hdenotes, hassembled⟩ := resolve_eq_ok ht
    exact ⟨meaning, hof hword ▸ .immediate hdenotes, hassembled⟩
  case h_2 hword =>
    cases hread
    exact ⟨.number 0, hof hword ▸ .base, .number 0⟩
  case h_3 cs hword =>
    obtain ⟨t, ht, hok⟩ := Outcome.bind_eq_ok_iff.mp hread
    cases hok
    obtain ⟨meaning, hdenotes, hassembled⟩ := resolve_eq_ok ht
    exact ⟨meaning, hof hword ▸ .plus hdenotes, hassembled⟩
  case h_4 cs hword =>
    obtain ⟨t, ht, hrest⟩ := Outcome.bind_eq_ok_iff.mp hread
    obtain ⟨u, hu, hok⟩ := Outcome.bind_eq_ok_iff.mp hrest
    cases hok
    obtain ⟨meaning, hdenotes, hassembled⟩ := resolve_eq_ok ht
    cases hassembled with
    | number w =>
      cases hu
      exact ⟨.number (-w), hof hword ▸ .minus hdenotes, .number (-w)⟩
    | label _ => cases hu
  case h_5 hhash hbase hplus hminus =>
    obtain ⟨t, ht, hok⟩ := Outcome.bind_eq_ok_iff.mp hread
    cases hok
    obtain ⟨meaning, hdenotes, hassembled⟩ := resolve_eq_ok ht
    exact ⟨meaning, .plain hmode.symm hdenotes, hassembled⟩

end Operand

namespace Instruction

variable {equates : Table String} {args words : List String} {terms : List Term}

/-- The statement for data has no other name. -/
private theorem unalias_data (args : List String) : unalias
    (".data" :: args) = ".data" :: args := rfl

/-- Every word of data is resolved. -/
private theorem assembleData_eq_ok (hok : assembleData equates args = .ok terms) :
    List.Forall₂ (fun word t => Operand.resolve equates word = .ok t) args terms := by
  unfold assembleData at hok
  split at hok
  · cases hok
  · exact Outcome.mapM_eq_ok_iff.mp hok

/-- A line that gives words is assembled into what it stands for. -/
theorem denotes_of_assemble (hok : assemble equates words = .ok terms) (hne : terms ≠ []) :
    ∃ meanings, Denotes equates words meanings ∧
      List.Forall₂ Operand.Assembled meanings terms := by
  cases words with
  | nil =>
    cases hok
    exact absurd rfl hne
  | cons head args =>
    obtain ⟨name, rest, hunalias, hname⟩ := unalias_cons head args
    unfold assemble at hok
    rw [hunalias] at hok
    split at hok
    case h_1 hnil => cases hnil
    case h_2 hwords =>
      obtain ⟨rfl, rfl⟩ := List.cons.inj hwords
      obtain rfl := hname rfl
      rw [unalias_data] at hunalias
      obtain ⟨_, rfl⟩ := List.cons.inj hunalias
      obtain ⟨meanings, hdenotes, hassembled⟩ := Outcome.exists_forall₂_of_forall₂
        (fun _ _ h => Operand.resolve_eq_ok h) (assembleData_eq_ok hok)
      exact ⟨meanings, .data hdenotes, hassembled⟩
    case h_3 hwords =>
      obtain ⟨rfl, rfl⟩ := List.cons.inj hwords
      split at hok
      · cases hok
      · next op hop =>
        obtain rfl := ofMnemonic?_eq_some_iff.mp hop
        obtain ⟨operands, hread, _, _, rfl⟩ := assembleOperation_eq_ok_iff.mp hok
        obtain ⟨meanings, hdenotes, hassembled⟩ := Outcome.exists_forall₂_of_forall₂
          (fun _ _ h => Operand.read_eq_ok h) hread
        refine ⟨_, .operation hunalias hdenotes, ?_⟩
        rw [Operand.modes_of_read hread]
        exact .cons (.number _) (List.forall₂_map_right_iff.mpr hassembled)

end Instruction

/-! ## Linked entries -/

namespace Assembler

/-- What linking makes of a word. -/
inductive Linked (labels : Table Word) : Meaning → Term → Prop where
  | number (w : Word) : Linked labels (.number w) ⟨w, none⟩
  | label {name : String} {w address : Word} (haddress : labels[name]? = some address)
    (hleft : Operand.Leftover name w) : Linked labels (.label name) ⟨w + address, some name⟩

/-- A word that was assembled for a meaning has it once it is linked. -/
theorem linked_of_assembled {labels : Table Word} {meaning : Meaning} {t u : Term}
    (hterm : Operand.Assembled meaning t) (hlink : Term.Linked labels t u) :
    Linked labels meaning u := by
  cases hterm with
  | number w =>
    cases hlink
    exact .number w
  | label hleft =>
    cases hlink with
    | label haddress _ => exact .label haddress hleft

/-- Every entry was assembled at the moment at which it became the last one. -/
theorem Course.Path.exists_assemble {a b : Assembler} {moments : List Assembler}
    (hpath : Path Reading a moments b) {d : Entry} (hd : d ∈ b.entries) :
    d ∈ a.entries ∨ ∃ m ∈ moments, m.entries.back? = some d ∧ d.terms ≠ [] ∧
      Instruction.assemble m.equates d.words = .ok d.terms := by
  induction hpath with
  | nil a => exact .inl hd
  | @cons a m b moments hreading _ ih =>
    rcases ih hd with hmem | ⟨n, hn, hfound⟩
    · cases hreading with
      | aside _ hentries _ => exact .inl (hentries ▸ hmem)
      | label _ _ _ hentries _ => exact .inl (hentries ▸ hmem)
      | entry _ e _ hterms hassemble hentries _ =>
        rw [hentries, Array.mem_push] at hmem
        rcases hmem with hmem | rfl
        · exact .inl hmem
        · refine .inr ⟨m, List.mem_cons_self, ?_, hterms, hassemble⟩
          rw [hentries, Array.back?_push]
    · exact .inr ⟨n, List.mem_cons_of_mem _ hn, hfound⟩

/-- Every entry of a source stands for what its line said when it was read, and was linked
with the labels that the source has in the end. -/
theorem exists_linked_of_parse {order : LinkOrder} {source : Source} {a b : Assembler}
    {l : Listing} (hparse : (parse order source).run a = .ok l b) {e : Entry}
    (he : e ∈ l.entries) :
    ∃ m ∈ Course.ofSource order source a, ∃ meanings,
      (∃ terms, m.entries.back? = some { e with terms }) ∧
      Instruction.Denotes m.equates e.words meanings ∧
      List.Forall₂ (Linked b.labels) meanings e.terms := by
  obtain ⟨p, c, hlines, hlink⟩ := Course.parse_eq_ok hparse
  obtain ⟨hentries, rfl⟩ := link_eq_ok_iff.mp hlink
  obtain ⟨d, hd, hlinked⟩ :=
    Outcome.exists_mem_of_forall₂ hentries.flip (Array.mem_toList_iff.mpr he)
  obtain ⟨moments, hpath, hmoments⟩ := Course.path_readLines order source a
  rw [endOf, hlines] at hpath
  rcases hpath.exists_assemble (Array.mem_toList_iff.mp hd) with hnone | ⟨m, hm, hback, hne, hok⟩
  · cases hnone
    contradiction
  · obtain ⟨terms, hterms, rfl⟩ := hlinked
    obtain ⟨meanings, hdenotes, hassembled⟩ := Instruction.denotes_of_assemble hok hne
    exact ⟨m, hmoments m hm, meanings, ⟨d.terms, hback⟩, hdenotes, Outcome.forall₂_of_common
      hassembled.flip hterms fun _ _ _ => linked_of_assembled⟩

/-! ## A label that is too large as a numeral -/

namespace LargeLabel

/-- An underscore and the first number of more than 64 bits. -/
def name : String := "_18446744073709551616"

/-- A source that refers to this label and to another one, both at address one. -/
def source : Source :=
  { text := ".data 7\nx: _18446744073709551616: mov #x, _18446744073709551616" }

/-- The first line. -/
def dataLine : String := ".data 7"

/-- The second line, with two labels. -/
def moveLine : String := "x: _18446744073709551616: mov #x, _18446744073709551616"

/-- The entry of the first line. -/
def dataEntry : Entry := ⟨1, 0, [".data", "7"], [⟨7, none⟩]⟩

/-- The entry of the second line before linking. -/
def moveEntry : Entry :=
  ⟨2, 1, ["mov", "#x", name],
    [⟨1101, none⟩, ⟨0, some "x"⟩, ⟨0, none⟩, ⟨Numeral.greatest, some name⟩]⟩

/-- The same entry after linking. -/
def linkedEntry : Entry :=
  ⟨2, 1, ["mov", "#x", name],
    [⟨1101, none⟩, ⟨1, some "x"⟩, ⟨0, none⟩, ⟨Numeral.least, some name⟩]⟩

/-- An assembler that has read the first line. -/
def dataRead : Assembler := ((fresh {}).numbered 1).added dataEntry

/-- No equates or macros were read. -/
private theorem bare_dataRead : Bare dataRead := (Bare.fresh.numbered 1).added dataEntry

/-- The first line is assembled. -/
theorem run_dataLine : (readSourceLine 1 dataLine none).run (fresh {}) = .ok none dataRead := by
  have hfields : (Text.fields dataLine.toList).map String.ofList = [".data", "7"] := rfl
  have hwords : ((fresh {}).numbered 1).wordsOf dataLine = .ok [".data", "7"] := by
    rw [wordsOf_of_not_mem (by decide) (by decide)]
    rfl
  have hlabel : labelOf? ".data" = none := rfl
  exact run_readSourceLine_of_lower (by rw [hfields]; decide) (by rw [hfields]; decide) hwords
    (by decide) (run_defineLabels_of_none hlabel _ _) (Bare.fresh.numbered 1) (by decide) rfl
    (by decide)

/-- An assembler that has defined the labels of the second line. -/
def moveStart : Assembler :=
  { dataRead.numbered 2 with labels := ((∅ : Table Word).insert "x" 1).insert name 1 }

/-- No equates or macros were read. -/
private theorem bare_moveStart : Bare moveStart := (bare_dataRead.numbered 2).labelled _

/-- Both labels stand at the second line. -/
theorem labels_moveStart :
    moveStart.labels["x"]? = some 1 ∧ moveStart.labels[name]? = some 1 := by
  refine ⟨?_, Std.ExtTreeMap.getElem?_insert_self⟩
  change (((∅ : Table Word).insert "x" 1).insert name 1)["x"]? = some 1
  rw [Std.ExtTreeMap.getElem?_insert, if_neg (by decide), Std.ExtTreeMap.getElem?_insert_self]

/-- The labels in front of the second line are defined. -/
private theorem run_defineLabels_moveLine :
    (defineLabels ["x:", name ++ ":", "mov", "#x", name]).run (dataRead.numbered 2) =
      .ok ["mov", "#x", name] moveStart := by
  have hx : labelOf? "x:" = some "x" := rfl
  have hlarge : labelOf? (name ++ ":") = some name := rfl
  have hmov : labelOf? "mov" = none := rfl
  have hnew : ((∅ : Table Word).insert "x" 1)[name]? = none := by
    rw [Std.ExtTreeMap.getElem?_insert, if_neg (by decide)]
    exact Std.ExtTreeMap.getElem?_empty
  rw [run_defineLabels_of_some hx Std.ExtTreeMap.getElem?_empty,
    run_defineLabels_of_some hlarge hnew, run_defineLabels_of_none hmov]
  rfl

/-- The second line is assembled. -/
theorem run_moveLine :
    (readSourceLine 2 moveLine none).run dataRead = .ok none (moveStart.added moveEntry) := by
  have hfields : (Text.fields moveLine.toList).map String.ofList =
      ["x:", name ++ ":", "mov", "#x,", name] := rfl
  have hwords : (dataRead.numbered 2).wordsOf moveLine =
      .ok ["x:", name ++ ":", "mov", "#x", name] := by
    rw [wordsOf_of_not_mem (by decide) (by decide)]
    rfl
  have hterms : Instruction.assemble ∅ moveEntry.words = .ok moveEntry.terms := rfl
  exact run_readSourceLine_of_lower (by rw [hfields]; decide) (by rw [hfields]; decide) hwords
    (by decide) run_defineLabels_moveLine bare_moveStart (by decide) hterms (by decide)

/-- Only the first label is linked. -/
theorem run_link (order : LinkOrder) :
    (link order).run (moveStart.added moveEntry) =
      .ok ⟨#[dataEntry, linkedEntry]⟩
        { moveStart.added moveEntry with entries := #[dataEntry, linkedEntry] } := by
  obtain ⟨hx, hlarge⟩ := labels_moveStart
  have hdata : Entry.Linked moveStart.labels dataEntry dataEntry :=
    ⟨dataEntry.terms, .cons (.plain 7) .nil, rfl⟩
  have hwrap : Term.Linked moveStart.labels ⟨Numeral.greatest, some name⟩
      ⟨Numeral.least, some name⟩ := by
    have hsum : Numeral.greatest + 1 = Numeral.least := by decide
    rw [← hsum]
    exact .label hlarge Numeral.greatest
  have hmove : Entry.Linked moveStart.labels moveEntry linkedEntry :=
    ⟨linkedEntry.terms, .cons (.plain 1101) (.cons (.label hx 0) (.cons (.plain 0)
      (.cons hwrap .nil))), rfl⟩
  exact link_eq_ok_iff.mpr ⟨.cons hdata (.cons hmove .nil), rfl⟩

/-- The source is assembled with its large label as a number. -/
theorem run_parse (order : LinkOrder) :
    (parse order source).run ({} : Assembler) =
      .ok ⟨#[dataEntry, linkedEntry]⟩
        { moveStart.added moveEntry with entries := #[dataEntry, linkedEntry] } := by
  have hlines : source.lines = [dataLine, moveLine] := rfl
  have hdata : stripped dataLine = dataLine := rfl
  have hmove : stripped moveLine = moveLine := rfl
  have hread : (readLines {} source.lines).run (fresh {}) =
      .ok ⟨2, moveLine, none⟩ (moveStart.added moveEntry) := by
    rw [hlines, readLines, hdata, EStateM.run_bind, Course.run_within, run_dataLine]
    dsimp only
    rw [readLines, hmove, EStateM.run_bind, Course.run_within, run_moveLine]
    rfl
  exact Assembler.run_parse rfl rfl hread rfl (run_link order)

end LargeLabel

/-! ## What linking gives -/

/-- Linking gives every word what its line said. Where a label stands, it is defined, and the
word is its address, unless the label begins with digits behind underscores that are too
large for a numeral: then the greatest word is added. Where none stands, the word is the
number that the line said. -/
theorem linked_of_parse {order : LinkOrder} {source : Source} {a b : Assembler} {l : Listing}
    (hparse : (parse order source).run a = .ok l b) (e : Entry) (he : e ∈ l.entries) :
    ∃ m ∈ Course.ofSource order source a, ∃ meanings,
      (∃ terms, m.entries.back? = some { e with terms }) ∧
      Instruction.Denotes m.equates e.words meanings ∧ meanings.length = e.codes.length ∧
      (∀ i name, (i, name) ∈ e.links → meanings[i]? = some (.label name) ∧
        ∃ address, b.labels[name]? = some address ∧
          (¬ Outgrows name.toList 0 → e.codes[i]? = some address) ∧
          (Outgrows name.toList 0 → e.codes[i]? = some (Numeral.greatest + address))) ∧
      ∀ i code, e.codes[i]? = some code → (∀ name, (i, name) ∉ e.links) →
        meanings[i]? = some (.number code) := by
  obtain ⟨m, hm, meanings, hback, hdenotes, hlinked⟩ := exists_linked_of_parse hparse he
  have hcode {i : Nat} {t : Term} (ht : e.terms[i]? = some t) : e.codes[i]? = some t.value := by
    rw [Entry.codes, List.getElem?_map, ht, Option.map_some]
  refine ⟨m, hm, meanings, hback, hdenotes, ?_, ?_, ?_⟩
  · rw [Entry.length_codes]
    exact hlinked.length_eq
  · intro i name hlink
    obtain ⟨t, ht, hname⟩ := Entry.mem_links_iff.mp hlink
    obtain ⟨meaning, hmeaning, hterm⟩ := Outcome.exists_getElem?_of_forall₂ hlinked.flip ht
    cases hterm with
    | number w => cases hname
    | @label _ w address haddress hleft =>
      obtain rfl := Option.some.inj hname
      refine ⟨hmeaning, address, haddress, fun hsmall => ?_, fun hlarge => ?_⟩
      · rw [hcode ht, hleft.zero hsmall, Int64.zero_add]
      · rw [hcode ht, hleft.greatest hlarge]
  · intro i code hi hnone
    obtain ⟨t, ht, rfl⟩ : ∃ t, e.terms[i]? = some t ∧ t.value = code := by
      rwa [Entry.codes, List.getElem?_map, Option.map_eq_some_iff] at hi
    obtain ⟨meaning, hmeaning, hterm⟩ := Outcome.exists_getElem?_of_forall₂ hlinked.flip ht
    cases hterm with
    | number w => exact hmeaning
    | label _ _ => exact absurd (Entry.mem_links_iff.mpr ⟨_, ht, rfl⟩) (hnone _)

namespace LargeLabel

/-- Of two labels at address one, the large one is counted from the greatest word. -/
theorem linked_labels :
    ∃ l b, (parse .ascending source).run ({} : Assembler) = .ok l b ∧ linkedEntry ∈ l.entries ∧
      ¬ Outgrows "x".toList 0 ∧ Outgrows name.toList 0 ∧
      ∃ m ∈ Course.ofSource .ascending source {}, ∃ meanings,
        Instruction.Denotes m.equates ["mov", "#x", name] meanings ∧
        meanings[0]? = some (.number 1101) ∧ meanings[1]? = some (.label "x") ∧
        meanings[2]? = some (.number 0) ∧ meanings[3]? = some (.label name) ∧
        b.labels["x"]? = linkedEntry.codes[1]? ∧
        b.labels[name]?.map (Numeral.greatest + ·) = linkedEntry.codes[3]? := by
  have hmem : linkedEntry ∈ #[dataEntry, linkedEntry] := by simp
  have hall : linkedEntry.links = [(1, "x"), (3, name)] := by decide
  have hx : ¬ Outgrows "x".toList 0 := by
    rw [← Numeral.magnitude_eq_overflow_iff (by decide)]
    decide
  have hlarge : Outgrows name.toList 0 := by
    rw [← Numeral.magnitude_eq_overflow_iff (by decide)]
    rfl
  obtain ⟨m, hm, meanings, _, hdenotes, _, hlinks, hnumbers⟩ :=
    linked_of_parse (run_parse .ascending) linkedEntry hmem
  obtain ⟨hsecond, address, haddress, hcode, _⟩ := hlinks 1 "x" (by decide)
  obtain ⟨hfourth, address', haddress', _, hcode'⟩ := hlinks 3 name (by decide)
  refine ⟨_, _, run_parse .ascending, hmem, hx, hlarge, m, hm, meanings, hdenotes, ?_, hsecond, ?_,
    hfourth, haddress.trans (hcode hx).symm, ?_⟩
  · exact hnumbers 0 1101 rfl (by simp [hall])
  · exact hnumbers 2 0 rfl (by simp [hall])
  · rw [haddress', hcode' hlarge, Option.map_some]

/-- A word that refers to the large label is not its address. -/
theorem code_ne_address :
    ∃ l b, (∀ order, (parse order source).run ({} : Assembler) = .ok l b) ∧
      ∃ e ∈ l.entries, ∃ i label address code, (i, label) ∈ e.links ∧
        b.labels[label]? = some address ∧ e.codes[i]? = some code ∧ code ≠ address :=
  ⟨_, _, run_parse, linkedEntry, by simp, 3, name, 1, Numeral.least, by decide, labels_moveStart.2,
    rfl, by decide⟩

end LargeLabel

end Assembler

end TapeMachine
