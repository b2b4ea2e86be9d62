import TapeMachine.Proofs.Assembled
import TapeMachine.Proofs.Numerals
import TapeMachine.Proofs.PlainLines

/-!
# Written listings

A listing can be written as a text: an operation with its operands or some data on each
line, and every word as a numeral. The assembler gives back what was written.
-/

namespace TapeMachine

open Assembler (Bare PlainWord PlainLine Gap isPlain isCapital)

namespace Numeral

/-- A digit of a numeral is a character of plain words. -/
private theorem isPlain_of_stands {c : Char} {d : Nat} (hc : Stands c d) (hd : d < 16) :
    isPlain c = true := by
  have hall : ∀ d < 16, isPlain d.digitChar = true ∧ isPlain d.digitChar.toUpper = true := by
    decide
  rcases hc with rfl | rfl
  · exact (hall d hd).1
  · exact (hall d hd).2

/-- What stands for a decimal figure is a digit. -/
private theorem isDigit_of_stands {c : Char} {d : Nat} (hc : Stands c d) (hd : d < 10) :
    c.isDigit = true := by
  have hall : ∀ d < 10, d.digitChar.isDigit = true ∧ d.digitChar.toUpper.isDigit = true := by
    decide
  rcases hc with rfl | rfl
  · exact (hall d hd).1
  · exact (hall d hd).2

namespace Written

variable {w : Word} (n : Written w)

/-- A number consists of plain characters. -/
private theorem isPlain_of_mem_text {c : Char} (hc : c ∈ n.text) : isPlain c = true := by
  unfold text at hc
  rw [List.mem_append, List.mem_append] at hc
  rcases hc with (hc | hc) | hc
  · have hsign : n.sign.text.all isPlain = true := by
      cases n.sign <;> decide
    exact List.all_eq_true.mp hsign c hc
  · have hmark : n.radix.mark.all isPlain = true := by
      cases n.radix <;> decide
    exact List.all_eq_true.mp hmark c hc
  · obtain ⟨d, hd, hstands⟩ := Outcome.exists_mem_of_forall₂ n.stands hc
    exact isPlain_of_stands hstands (Nat.lt_of_lt_of_le (n.bounded d hd) n.radix.base_le)

/-- A numeral begins with a sign or a digit. -/
theorem exists_text_eq_cons :
    ∃ c cs, n.text = c :: cs ∧ (c = '+' ∨ c = '-' ∨ c.isDigit = true) := by
  obtain ⟨sign, radix, digits, figures, hstands, hne, hbounded, _, _⟩ := n
  unfold text
  dsimp only at *
  cases sign with
  | plus => exact ⟨'+', _, rfl, .inl rfl⟩
  | minus => exact ⟨'-', _, rfl, .inr (.inl rfl)⟩
  | none =>
    cases radix with
    | hexadecimal | octal | binary => exact ⟨'0', _, rfl, .inr (.inr rfl)⟩
    | decimal =>
      cases hstands with
      | nil => exact absurd rfl hne
      | cons hc _ =>
        exact ⟨_, _, rfl, .inr (.inr (isDigit_of_stands hc (hbounded _ List.mem_cons_self)))⟩

/-- A numeral does not begin with a letter or a number sign. -/
theorem head_text {c : Char} {cs : List Char} (htext : n.text = c :: cs) :
    c.isAlpha = false ∧ c ≠ '#' := by
  obtain ⟨d, ds, hcons, hd⟩ := n.exists_text_eq_cons
  obtain ⟨rfl, _⟩ := List.cons.inj (htext.symm.trans hcons)
  rcases hd with rfl | rfl | hdigit
  · decide
  · decide
  · refine ⟨isAlpha_of_isDigit hdigit, ?_⟩
    rintro rfl
    cases hdigit

end Written

end Numeral

namespace Operand

/-- What stands in front of the value of an operand. -/
def modeMark : Mode → List Char
  | .position => []
  | .immediate => ['#']
  | .relative => ['r', 'b', '+']

variable {w : Word} (n : Numeral.Written w)

/-- No equate has the name of a numeral, in whatever mode. -/
theorem isCapital_written (mode : Mode) :
    isCapital (String.ofList (modeMark mode ++ n.text)) = false := by
  obtain ⟨c, cs, htext, _⟩ := n.exists_text_eq_cons
  rw [isCapital, String.toList_ofList, htext]
  cases mode with
  | immediate => rfl
  | relative => rfl
  | position =>
    have hletter : (c.isUpper || c.isLower) = false := (n.head_text htext).1
    exact (Bool.or_eq_false_iff.mp hletter).1

/-- An operand with a numeral for its value. -/
def written (mode : Mode) : PlainWord where
  chars := modeMark mode ++ n.text
  nonempty := by
    obtain ⟨c, cs, htext, _⟩ := n.exists_text_eq_cons
    simp [htext]
  plain := by
    have hmark : (modeMark mode).all isPlain = true := by
      cases mode <;> decide
    have htext : n.text.all isPlain = true :=
      List.all_eq_true.mpr fun c hc => n.isPlain_of_mem_text hc
    rw [List.all_append, hmark, htext, Bool.and_true]
  unbound := isCapital_written n mode

variable {equates : Table String}

/-- A numeral denotes its word. -/
theorem resolve_text (hequates : equates[String.ofList n.text]? = none) :
    resolve equates (String.ofList n.text) = .ok ⟨w, none⟩ := by
  rw [resolve, hequates, Option.getD_none, term, String.toList_ofList, n.readAnnounced_text]

/-- A written operand is read with its mode and its value. -/
theorem read_written (mode : Mode) (hequates : equates[String.ofList n.text]? = none) :
    read equates (String.ofList (modeMark mode ++ n.text)) = .ok (mode, ⟨w, none⟩) := by
  have hvalue := resolve_text n hequates
  unfold read
  rw [String.toList_ofList]
  cases mode with
  | immediate =>
    simp only [modeMark, List.cons_append, List.nil_append, hvalue]
    rfl
  | relative =>
    simp only [modeMark, List.cons_append, List.nil_append, hvalue]
    rfl
  | position =>
    dsimp only [modeMark, List.nil_append]
    split
    · next htext => exact absurd rfl (n.head_text htext).2
    · next htext => cases (n.head_text htext).1
    · next htext => cases (n.head_text htext).1
    · next htext => cases (n.head_text htext).1
    · rw [hvalue]
      rfl

end Operand

namespace Instruction

variable {equates : Table String}

/-- A mnemonic has no other spelling. -/
theorem unalias_mnemonic (op : Opcode) (args : List String) :
    unalias (op.mnemonic :: args) = op.mnemonic :: args := by
  cases op <;> rfl

/-- Data is assembled word by word. -/
private theorem assemble_data (args : List String) :
    assemble equates (".data" :: args) = assembleData equates args := rfl

/-- No operation is written like data. -/
private theorem mnemonic_ne_data (op : Opcode) : op.mnemonic ≠ ".data" := by
  cases op <;> decide

/-- An operation is assembled from its arguments. -/
theorem assemble_mnemonic {op : Opcode} {args : List String} :
    assemble equates (op.mnemonic :: args) = assembleOperation equates op args := by
  unfold assemble
  rw [unalias_mnemonic]
  split
  · next h => cases h
  · next h => exact absurd (List.cons.inj h).1 (mnemonic_ne_data op)
  · next h =>
    obtain ⟨rfl, rfl⟩ := List.cons.inj h
    rw [ofMnemonic?_eq_some_iff.mpr rfl]

end Instruction

/-! ## Items of a listing -/

/-- A numeral on a line, behind a gap. -/
structure Figure where
  gap : Gap
  value : Word
  numeral : Numeral.Written value

/-- What a line of a listing says: an operation with its operands, or data. -/
inductive Item where
  | operation (op : Opcode) (operands : List (Mode × Figure))
    (arity : operands.length = op.arity)
    (destination : op.writes = true → (operands.map Prod.fst).getLast? ≠ some .immediate)
  | data (values : List Figure) (nonempty : values ≠ [])

namespace Item

/-- The machine words of an item. -/
def codes : Item → List Word
  | operation op operands _ _ =>
    Instruction.encode op (operands.map Prod.fst) :: operands.map fun operand => operand.2.value
  | data values _ => values.map Figure.value

/-- The name of an operation as a word. -/
def mnemonic (op : Opcode) : PlainWord where
  chars := op.mnemonic.toList
  nonempty := by cases op <;> decide
  plain := by cases op <;> decide
  unbound := by cases op <;> decide

/-- The directive for data as a word. -/
def dataMark : PlainWord where
  chars := ['.', 'd', 'a', 't', 'a']
  nonempty := by decide
  plain := by decide
  unbound := by decide

/-- An item as a line. -/
def line : Item → PlainLine
  | operation op operands _ _ =>
    { name := mnemonic op
      directive := by cases op <;> decide
      args := operands.map fun operand =>
        (operand.2.gap, Operand.written operand.2.numeral operand.1) }
  | data values _ =>
    { name := dataMark
      directive := fun _ => rfl
      args := values.map fun value => (value.gap, Operand.written value.numeral .position) }

/-- Words without labels. -/
def terms (item : Item) : List Term := item.codes.map fun code => ⟨code, none⟩

/-- An item has at least one word. -/
theorem terms_ne_nil (item : Item) : item.terms ≠ [] := by
  cases item with
  | operation op operands => exact List.cons_ne_nil _ _
  | data values hvalues => simpa [terms, codes] using hvalues

/-- An item is assembled into its words. -/
theorem assemble_words (item : Item) {a : Assembler} (ha : Bare a) :
    Instruction.assemble a.equates item.line.words = .ok item.terms := by
  have hunbound {w : Word} (n : Numeral.Written w) : a.equates[String.ofList n.text]? = none :=
    ha.unbound _ (Operand.isCapital_written n .position)
  cases item with
  | operation op operands harity hlast =>
    have hread : List.Forall₂ (fun word operand => Operand.read a.equates word = .ok operand)
        (operands.map fun operand =>
          String.ofList (Operand.written operand.2.numeral operand.1).chars)
        (operands.map fun operand => (operand.1, ⟨operand.2.value, none⟩)) := by
      rw [List.forall₂_map_left_iff, List.forall₂_map_right_iff, List.forall₂_same]
      intro operand _
      exact Operand.read_written _ _ (hunbound _)
    have hmodes : (operands.map fun operand => (operand.1, Term.mk operand.2.value none)).map
        Prod.fst = operands.map Prod.fst := by simp
    have hwords : (line (.operation op operands harity hlast)).words = op.mnemonic ::
        operands.map fun operand =>
          String.ofList (Operand.written operand.2.numeral operand.1).chars := by
      simp [line, PlainLine.words, mnemonic]
    rw [hwords, Instruction.assemble_mnemonic, Instruction.assembleOperation_eq_ok_iff]
    refine ⟨_, hread, by simpa using harity, hmodes ▸ hlast, ?_⟩
    rw [hmodes]
    simp [terms, codes]
  | data values hvalues =>
    have hresolve : List.Forall₂ (fun word t => Operand.resolve a.equates word = .ok t)
        (values.map fun value => String.ofList value.numeral.text)
        (values.map fun value => ⟨value.value, none⟩) := by
      rw [List.forall₂_map_left_iff, List.forall₂_map_right_iff, List.forall₂_same]
      intro value _
      exact Operand.resolve_text _ (hunbound _)
    have hwords : (line (.data values hvalues)).words = ".data" ::
        values.map fun value => String.ofList value.numeral.text := by
      simp [line, PlainLine.words, dataMark, Operand.written, Operand.modeMark]
    rw [hwords, Instruction.assemble_data, Instruction.assembleData,
      if_neg (by simpa using hvalues), Outcome.mapM_eq_ok_iff.mpr hresolve]
    simp [terms, codes]

end Item

/-! ## Listings as texts -/

/-- Items as a text, one on each line. The last line may end with a line feed, too. -/
def Item.text (ended : Bool) (items : List Item) : List Char :=
  let lines := items.map fun item => item.line.text
  if ended then lines.flatMap (· ++ ['\n']) else ['\n'].intercalate lines

namespace Assembler

/-- The lines of a text are those that it was made of. -/
theorem rawLines_text (ended : Bool) (items : List Item) :
    Source.rawLines (Item.text ended items) = items.map fun item => item.line.text := by
  have hlines : ∀ line ∈ items.map fun item => item.line.text, '\n' ∉ line := by
    simpa using fun item _ => item.line.not_mem_text (c := '\n') (by decide)
  cases ended with
  | true => exact Source.rawLines_flatMap hlines
  | false =>
    refine Source.rawLines_intercalate hlines ?_
    intro hlast
    obtain ⟨item, _, htext⟩ := List.mem_map.mp (List.mem_of_getLast? hlast)
    simp [PlainLine.text, item.line.name.nonempty] at htext

variable {items : List Item}

/-- The lines of a text are those of its items. -/
private theorem lines_text (ended : Bool)
    (hfits : ∀ item ∈ items, Text.byteLength item.line.text < Source.lineLimit) :
    Source.lines { text := String.ofList (Item.text ended items) } =
      items.map fun item => String.ofList item.line.text := by
  have hall : ∀ line ∈ items.map fun item => item.line.text, Source.fits line = true := by
    simpa [Source.fits] using hfits
  have hreturn (item : Item) : Source.dropReturn item.line.text = item.line.text := by
    refine if_neg ?_
    intro hlast
    exact item.line.not_mem_text (by decide) (List.mem_of_getLast? hlast)
  rw [Source.lines, String.toList_ofList, rawLines_text, List.takeWhile_eq_self_iff.mpr hall,
    List.map_map]
  simp [hreturn]

/-- No line of a text is too long. -/
private theorem hasLongLine_text (ended : Bool)
    (hfits : ∀ item ∈ items, Text.byteLength item.line.text < Source.lineLimit) :
    Source.hasLongLine { text := String.ofList (Item.text ended items) } = false := by
  rw [Source.hasLongLine, String.toList_ofList, rawLines_text]
  simpa [Source.fits] using hfits

/-- Lines of items add an entry for each item. -/
theorem run_readLines_items (items : List Item) {a : Assembler} (ha : Bare a) (p : Position)
    (hp : p.opened = none) :
    ∃ q b entries,
      (readLines p (items.map fun item => String.ofList item.line.text)).run a = .ok q b ∧
        q.opened = none ∧ b.entries.toList = a.entries.toList ++ entries ∧
        List.Forall₂ (fun item e => e.terms = Item.terms item) items entries := by
  induction items generalizing a p with
  | nil => exact ⟨p, a, [], rfl, hp, by simp, .nil⟩
  | cons item items ih =>
    have hbare := ha.numbered (p.number + 1)
    set entry : Entry := ⟨(p.number + 1 : Nat), (a.numbered (p.number + 1)).here, item.line.words,
      item.terms⟩ with hentry
    obtain ⟨q, b, entries, hrun, hq, hentries, hterms⟩ :=
      ih (hbare.added entry) ⟨p.number + 1, String.ofList item.line.text, none⟩ rfl
    refine ⟨q, b, entry :: entries, ?_, hq, ?_, .cons rfl hterms⟩
    · rw [List.map_cons, readLines]
      rw [item.line.stripped_text, hp, EStateM.run_bind, Course.run_within,
        item.line.run_readSourceLine ha (item.assemble_words hbare) item.terms_ne_nil]
      exact hrun
    · rw [hentries]
      simp [added, numbered]

/-- Entries without labels are linked as they are. -/
theorem run_link_of_unlabelled {order : LinkOrder} {a : Assembler}
    (hlabels : ∀ e ∈ a.entries.toList, ∀ t ∈ e.terms, t.label = none) :
    (link order).run a = .ok ⟨a.entries⟩ a := by
  have hterm : ∀ t : Term, t.label = none → Term.Linked a.labels t t := by
    rintro ⟨value, label⟩ rfl
    exact .plain value
  have hentry : ∀ e ∈ a.entries.toList, Entry.Linked a.labels e e := fun e he =>
    ⟨e.terms, List.forall₂_same.mpr fun t ht => hterm t (hlabels e he t ht), rfl⟩
  exact link_eq_ok_iff.mpr ⟨List.forall₂_same.mpr hentry, rfl⟩

/-- An item has no labels. -/
private theorem links_eq_nil {item : Item} {e : Entry} (hterms : e.terms = item.terms) : e.links =
    [] := by
  rw [Entry.links, List.filterMap_eq_nil_iff]
  intro t ht
  have hmem : t.1 ∈ item.terms := hterms ▸ (List.mem_zipIdx' ht).2 ▸ List.getElem_mem _
  obtain ⟨code, _, hcode⟩ := List.mem_map.mp hmem
  rw [← hcode]
  rfl

/-- The words of an entry are those of its item. -/
private theorem codes_eq {item : Item} {e : Entry} (hterms : e.terms = item.terms) :
    e.codes = item.codes := by
  rw [Entry.codes, hterms, Item.terms, List.map_map]
  exact List.map_id _

/-- Items are assembled into an entry for each of them, whatever names with a capital letter
in front are defined. -/
theorem run_parse_items {a : Assembler} (ha : Bare a.fresh) (items : List Item) (ended : Bool)
    (hfits : ∀ item ∈ items, Text.byteLength item.line.text < Source.lineLimit) :
    ∃ l b, (∀ order, (parse order { text := String.ofList (Item.text ended items) }).run a =
        .ok l b) ∧
      List.Forall₂ (fun item e => e.terms = Item.terms item) items l.entries.toList := by
  obtain ⟨q, b, entries, hrun, hq, hentries, hterms⟩ := run_readLines_items items ha {} rfl
  have hb : b.entries.toList = entries := hentries
  have hlink (order : LinkOrder) : (link order).run b = .ok ⟨b.entries⟩ b := by
    refine run_link_of_unlabelled ?_
    intro e he t ht
    obtain ⟨item, _, hitem⟩ := Outcome.exists_mem_of_forall₂ hterms.flip (hb ▸ he)
    rw [hitem] at ht
    obtain ⟨code, _, rfl⟩ := List.mem_map.mp ht
    rfl
  refine ⟨⟨b.entries⟩, b, fun order => ?_, hb ▸ hterms⟩
  refine run_parse (hasLongLine_text ended hfits) rfl ?_ hq (hlink order)
  rw [lines_text ended hfits]
  exact hrun

/-- The entries for items have the words of these. -/
theorem codes_of_terms {entries : List Entry}
    (hterms : List.Forall₂ (fun item e => e.terms = Item.terms item) items entries) :
    entries.map Entry.codes = items.map Item.codes := by
  have hsame := hterms.imp fun item e h => codes_eq h
  rw [← List.forall₂_eq_eq_eq, List.forall₂_map_left_iff, List.forall₂_map_right_iff]
  exact hsame.flip

/-- The image of items has all of their words in order. -/
theorem image?_of_codes {order : LinkOrder} {source : Source} {a b : Assembler} {l : Listing}
    (hparse : (parse order source).run a = .ok l b)
    (hcodes : l.entries.toList.map Entry.codes = items.map Item.codes)
    (hsize : (items.flatMap Item.codes).length ≤ 2 ^ 63) :
    l.image? = some (items.flatMap Item.codes).toArray := by
  have hall : Listing.codesOf l.entries.toList = items.flatMap Item.codes := by
    rw [Listing.codesOf, List.flatMap_def, hcodes, List.flatMap_def]
  rw [Listing.image?_of_contiguous (Course.contiguous_of_parse hparse) (hall ▸ hsize), hall]

/-- A written listing is assembled into what was written: there is one entry for each item,
with the words of this item and without links, and the image has all words in order. -/
theorem parse_written (items : List Item) (ended : Bool)
    (hfits : ∀ item ∈ items, Text.byteLength item.line.text < Source.lineLimit) :
    ∃ l b, (∀ order, (parse order { text := String.ofList (Item.text ended items) }).run
        ({} : Assembler) = .ok l b) ∧
      l.entries.toList.map Entry.codes = items.map Item.codes ∧
      (∀ e ∈ l.entries, e.links = []) ∧
      ((items.flatMap Item.codes).length ≤ 2 ^ 63 →
        l.image? = some (items.flatMap Item.codes).toArray) := by
  obtain ⟨l, b, hparse, hterms⟩ := run_parse_items .fresh items ended hfits
  have hcodes := codes_of_terms hterms
  refine ⟨l, b, hparse, hcodes, ?_, image?_of_codes (hparse .ascending) hcodes⟩
  intro e he
  obtain ⟨item, _, hitem⟩ :=
    Outcome.exists_mem_of_forall₂ hterms.flip (Array.mem_toList_iff.mpr he)
  exact links_eq_nil hitem

/-- An addition and two words of data, with numerals in all four bases. -/
theorem parse_written_sum :
    let text := "add #0x1f, rb+-5 0b101\n.data -9223372036854775808,0o17\n"
    ∃ l b, (∀ order, (parse order { text }).run ({} : Assembler) = .ok l b) ∧
      l.entries.toList.map Entry.codes =
        [[2101, 31, -5, 5], [-9223372036854775808, 15]] ∧
      l.image? = some #[2101, 31, -5, 5, -9223372036854775808, 15] := by
  let blank : Gap := ⟨[' '], by decide, by decide⟩
  let comma : Gap := ⟨[','], by decide, by decide⟩
  let commaBlank : Gap := ⟨[',', ' '], by decide, by decide⟩
  let items : List Item := [
    .operation .add [(.immediate, ⟨blank, 31, .inRadix .hexadecimal 31⟩),
      (.relative, ⟨commaBlank, -5, .inRadix .decimal (-5)⟩),
      (.position, ⟨blank, 5, .inRadix .binary 5⟩)] rfl (by decide),
    .data [⟨blank, -9223372036854775808, .inRadix .decimal (-9223372036854775808)⟩,
      ⟨comma, 15, .inRadix .octal 15⟩] (List.cons_ne_nil _ _)]
  intro text
  have htext : text = String.ofList (Item.text true items) := by decide
  have hfits : ∀ item ∈ items, Text.byteLength item.line.text < Source.lineLimit := by decide
  obtain ⟨l, b, hparse, hcodes, _, himage⟩ := parse_written items true hfits
  refine ⟨l, b, ?_, ?_, ?_⟩
  · rw [htext]
    exact hparse
  · rw [hcodes]
    decide
  · rw [himage (by decide)]
    decide

end Assembler

end TapeMachine
