import Mathlib.Data.List.DropRight
import TapeMachine.Proofs.DefinedLabels
import TapeMachine.Proofs.SplicedLines
import TapeMachine.Proofs.WrittenListing

/-!
# Codes in place of character literals

A character literal stands for the code of its character, so a source says the same with
decimal codes in place of its literals. Lines are cut at comments and blanks before their
literals are read. Blanks in a literal survive this, since its quotes stand around them. A
semicolon does not: it takes the rest of its line with it.
-/

namespace TapeMachine

namespace Text

/-- The end of a text is the end of its second part, unless nothing is left of this. -/
theorem rdropWhile_append (p : Char → Bool) (front cs : List Char) :
    (front ++ cs).rdropWhile p =
      if cs.rdropWhile p = [] then front.rdropWhile p else front ++ cs.rdropWhile p := by
  induction cs using List.reverseRecOn with
  | nil => simp
  | append_singleton cs c ih =>
    rw [← List.append_assoc]
    by_cases hc : p c = true
    · rw [List.rdropWhile_concat_pos _ _ _ hc, List.rdropWhile_concat_pos _ _ _ hc, ih]
    · rw [List.rdropWhile_concat_neg _ _ _ hc, List.rdropWhile_concat_neg _ _ _ hc,
        if_neg (List.append_ne_nil_of_right_ne_nil cs (List.cons_ne_nil c [])), List.append_assoc]

/-- What is dropped at the end of an appended text does not reach a front from which nothing is
dropped. -/
theorem rdropWhile_append_of_eq {p : Char → Bool} {front : List Char}
    (hfront : front.rdropWhile p = front) (cs : List Char) :
    (front ++ cs).rdropWhile p = front ++ cs.rdropWhile p := by
  rw [rdropWhile_append, hfront]
  split
  · next hcs => rw [hcs, List.append_nil]
  · rfl

/-- If a text follows another one in blanks and in the characters of a word, it has this word in
front if the other one has. -/
theorem takeWhile_of_follows {R : List Char → List Char → Prop} {Follows : Char → Prop}
    (hnil : ∀ ds, R [] ds → ds = [])
    (hcons : ∀ c cs ds, R (c :: cs) ds → Follows c → ∃ rest, ds = c :: rest ∧ R cs rest)
    (hblank : ∀ c, isBlank c = true → Follows c) {cs ds word : List Char} (h : R cs ds)
    (hword : ∀ c ∈ word, Follows c) (hcs : cs.takeWhile (!isBlank ·) = word) :
    ds.takeWhile (!isBlank ·) = word := by
  induction cs generalizing ds word with
  | nil => rw [hnil ds h, ← hcs]
  | cons c cs ih =>
    by_cases hc : isBlank c = true
    · obtain ⟨rest, rfl, _⟩ := hcons c cs ds h (hblank c hc)
      rw [← hcs, List.takeWhile_cons_of_neg (by simp [hc]),
        List.takeWhile_cons_of_neg (by simp [hc])]
    · rw [List.takeWhile_cons_of_pos (by simp [hc])] at hcs
      subst hcs
      obtain ⟨hfirst, hothers⟩ := List.forall_mem_cons.mp hword
      obtain ⟨rest, rfl, hrest⟩ := hcons c cs ds h hfirst
      rw [List.takeWhile_cons_of_pos (by simp [hc]), ih hrest hothers rfl]

end Text

namespace Literal

/-! ## Texts and codes -/

/-- Whether a literal may give way to its code: the character is printable, is written without
a backslash, and starts no comment. -/
def isCoded (c : Char) : Bool :=
  32 ≤ c.toNat && c.toNat ≤ 126 && c != '\'' && c != '\\' && c != ';'

/-- The literals, with codes or without. -/
inductive Quoted : List Char → Prop
  | plain {c : Char} (hc : c ≠ '\'') : Quoted ['\'', c, '\'']
  | escaped {c : Char} (hc : c ≠ '\'') : Quoted ['\'', '\\', c, '\'']

/-- No literal stands at the front of a text. -/
def Unquoted (cs : List Char) : Prop := ∀ q, Quoted q → ¬ q <+: cs

/-- A text, and the same with codes in place of some of the literals that are found in it from
left to right. -/
inductive Recoded : List Char → List Char → Prop
  | nil : Recoded [] []
  | code {c : Char} {cs ds : List Char} (hc : isCoded c = true) (hrest : Recoded cs ds) :
      Recoded (['\'', c, '\''] ++ cs) (Nat.toDigits 10 c.toNat ++ ds)
  | kept {q cs ds : List Char} (hq : Quoted q) (hrest : Recoded cs ds) : Recoded (q ++ cs) (q ++ ds)
  | other {c : Char} {cs ds : List Char} (hnone : Unquoted (c :: cs)) (hrest : Recoded cs ds) :
      Recoded (c :: cs) (c :: ds)

/-- A quoted text begins with a quote. -/
theorem Quoted.exists_eq_cons {q : List Char} (hq : Quoted q) : ∃ more, q = '\'' :: more := by
  cases hq with
  | plain => exact ⟨_, rfl⟩
  | escaped => exact ⟨_, rfl⟩

/-- No blank stands at the end of a quoted text. -/
theorem Quoted.rdropWhile_blank {q : List Char} (hq : Quoted q) :
    q.rdropWhile Text.isBlank = q := by
  cases hq with
  | @plain c => exact List.rdropWhile_concat_neg Text.isBlank ['\'', c] '\'' (by decide)
  | @escaped c => exact List.rdropWhile_concat_neg Text.isBlank ['\'', '\\', c] '\'' (by decide)

/-- What is known of a character that may be written as its code. -/
theorem isCoded_spec {c : Char} (hc : isCoded c = true) :
    c ≠ '\'' ∧ c ≠ '\\' ∧ c ≠ ';' ∧ plainCode? c = some c.toNat ∧
      2 ≤ (Nat.toDigits 10 c.toNat).length := by
  have hrange : c.toNat < 127 := by
    simp only [isCoded, Bool.and_eq_true, decide_eq_true_eq] at hc
    omega
  refine Text.of_toNat_lt (fun c => isCoded c = true → c ≠ '\'' ∧ c ≠ '\\' ∧ c ≠ ';' ∧
    plainCode? c = some c.toNat ∧ 2 ≤ (Nat.toDigits 10 c.toNat).length) ?_ hrange hc
  decide

/-- A code is written in digits. -/
theorem isDigit_of_mem_code {c d : Char} (hd : d ∈ Nat.toDigits 10 c.toNat) : d.isDigit = true :=
  Nat.isDigit_of_mem_toDigits (by decide) (by decide) hd

/-- A code has two digits at least. -/
theorem exists_code_eq_cons {c : Char} (hc : isCoded c = true) :
    ∃ d e more, Nat.toDigits 10 c.toNat = d :: e :: more ∧ d.isDigit = true ∧ e.isDigit = true := by
  obtain ⟨_, _, _, _, hlength⟩ := isCoded_spec hc
  have hdigits : ∀ d ∈ Nat.toDigits 10 c.toNat, d.isDigit = true := fun d => isDigit_of_mem_code
  generalize Nat.toDigits 10 c.toNat = digits at hlength hdigits
  obtain ⟨d, rest, rfl⟩ := List.exists_cons_of_length_pos (Nat.lt_of_succ_lt hlength)
  obtain ⟨e, more, rfl⟩ := List.exists_cons_of_length_pos (Nat.lt_of_succ_lt_succ hlength)
  exact ⟨d, e, more, rfl, hdigits d (by simp), hdigits e (by simp)⟩

/-- A digit is none of the other characters. -/
theorem ne_of_isDigit {c d : Char} (hc : c.isDigit = true) (hd : d.isDigit = false) : c ≠ d := by
  rintro rfl
  rw [hc] at hd
  cases hd

/-- A digit is no blank. -/
theorem not_isBlank_of_isDigit {c : Char} (hc : c.isDigit = true) : ¬ Text.isBlank c = true := by
  have hplain : Assembler.isPlain c = true := by simp [Assembler.isPlain, Char.isAlphanum, hc]
  simp [(Assembler.isPlain_spec hplain).1]

/-- Whether a character neither starts a literal nor belongs to a code. -/
def isFixed (c : Char) : Bool := c != '\'' && !c.isDigit

/-- A character is fixed unless it is a quote or a digit. -/
theorem isFixed_iff {c : Char} : isFixed c = true ↔ c ≠ '\'' ∧ c.isDigit = false := by
  simp [isFixed]

/-- A blank is fixed. -/
theorem isFixed_of_isBlank {c : Char} (hc : Text.isBlank c = true) : isFixed c = true := by
  refine isFixed_iff.mpr ⟨?_, Bool.eq_false_iff.mpr fun hd => not_isBlank_of_isDigit hd hc⟩
  rintro rfl
  cases hc

namespace Recoded

variable {cs ds : List Char}

/-- No literal has to give way. -/
theorem refl (cs : List Char) : Recoded cs cs := by
  by_cases hquoted : ∃ q, Quoted q ∧ q <+: cs
  · obtain ⟨q, hq, rest, rfl⟩ := hquoted
    have hshorter : rest.length < (q ++ rest).length := by
      obtain ⟨more, rfl⟩ := hq.exists_eq_cons
      simp
    exact .kept hq (refl rest)
  · cases cs with
    | nil => exact .nil
    | cons c cs => exact .other (fun q hq hfront => hquoted ⟨q, hq, hfront⟩) (refl cs)
termination_by cs.length

/-- Text without quotes may stand in front. -/
theorem append_left (front : List Char) (hfront : '\'' ∉ front) (h : Recoded cs ds) :
    Recoded (front ++ cs) (front ++ ds) := by
  induction front with
  | nil => exact h
  | cons c front ih =>
    obtain ⟨hc, hfront⟩ := not_or.mp (mt List.mem_cons.mpr hfront)
    refine .other (fun q hq hquoted => ?_) (ih hfront)
    obtain ⟨more, rfl⟩ := hq.exists_eq_cons
    exact hc (List.cons_prefix_cons.mp hquoted).1

/-- A text is empty exactly if its recoded form is. -/
theorem eq_nil_iff (h : Recoded cs ds) : cs = [] ↔ ds = [] := by
  cases h with
  | nil => exact Iff.rfl
  | code hc _ =>
    obtain ⟨d, e, more, hcode, _⟩ := exists_code_eq_cons hc
    simp [hcode]
  | kept hq _ =>
    obtain ⟨more, rfl⟩ := hq.exists_eq_cons
    simp
  | other _ _ => simp

/-- What is no quote stays where it is. -/
theorem of_cons_left {c : Char} (h : Recoded (c :: cs) ds) (hc : c ≠ '\'') :
    ∃ rest, ds = c :: rest ∧ Recoded cs rest := by
  generalize htext : c :: cs = text at h
  cases h with
  | nil => cases htext
  | code _ _ => exact absurd (List.cons.inj htext).1 hc
  | kept hq _ =>
    obtain ⟨more, rfl⟩ := hq.exists_eq_cons
    exact absurd (List.cons.inj htext).1 hc
  | other _ hrest =>
    obtain ⟨rfl, rfl⟩ := List.cons.inj htext
    exact ⟨_, rfl, hrest⟩

/-- What is no digit was there before. -/
theorem of_cons_right {c : Char} (h : Recoded cs (c :: ds)) (hc : c.isDigit = false) :
    ∃ rest, cs = c :: rest ∧ (c ≠ '\'' → Recoded rest ds) := by
  generalize htext : c :: ds = text at h
  cases h with
  | nil => cases htext
  | code hcode _ =>
    obtain ⟨d, e, more, hdigits, hd, _⟩ := exists_code_eq_cons hcode
    rw [hdigits] at htext
    exact absurd (List.cons.inj htext).1.symm (ne_of_isDigit hd hc)
  | kept hq _ =>
    obtain ⟨more, rfl⟩ := hq.exists_eq_cons
    obtain ⟨rfl, _⟩ := List.cons.inj htext
    exact ⟨_, rfl, fun hne => absurd rfl hne⟩
  | other _ hrest =>
    obtain ⟨rfl, rfl⟩ := List.cons.inj htext
    exact ⟨_, rfl, fun _ => hrest⟩

/-- A quote in the second place was there before, since codes have two digits. -/
theorem of_quote_right {c : Char} (h : Recoded cs (c :: '\'' :: ds)) (hc : c ≠ '\'') :
    ∃ rest, cs = c :: '\'' :: rest := by
  generalize htext : c :: '\'' :: ds = text at h
  cases h with
  | nil => cases htext
  | code hcode _ =>
    obtain ⟨d, e, more, hdigits, _, he⟩ := exists_code_eq_cons hcode
    rw [hdigits] at htext
    have hquote : '\'' = e := (List.cons.inj (List.cons.inj htext).2).1
    exact absurd hquote.symm (ne_of_isDigit he (by decide))
  | kept hq _ =>
    obtain ⟨more, rfl⟩ := hq.exists_eq_cons
    exact absurd (List.cons.inj htext).1 hc
  | other _ hrest =>
    obtain ⟨rfl, rfl⟩ := List.cons.inj htext
    obtain ⟨rest, rfl, _⟩ := hrest.of_cons_right (by decide)
    exact ⟨rest, rfl⟩

/-- Codes do not make a literal of a quote that was none. -/
theorem unquoted {c : Char} (h : Recoded cs ds) (hnone : Unquoted (c :: cs)) :
    Unquoted (c :: ds) := by
  rintro q hq ⟨rest, hfront⟩
  cases hq with
  | plain hd =>
    obtain ⟨rfl, rfl⟩ := List.cons.inj hfront
    obtain ⟨before, rfl⟩ := h.of_quote_right hd
    exact hnone _ (.plain hd) ⟨before, rfl⟩
  | escaped hd =>
    obtain ⟨rfl, rfl⟩ := List.cons.inj hfront
    obtain ⟨before, rfl, hbefore⟩ := h.of_cons_right (by decide)
    obtain ⟨before, rfl⟩ := (hbefore (by decide)).of_quote_right hd
    exact hnone _ (.escaped hd) ⟨before, rfl⟩

end Recoded

/-! ## The same characters -/

/-- What is done with the front of a text is done first. -/
theorem characters_of_done (front done : List Char)
    (h : ∀ rest, charactersFrom [] (front ++ rest) = charactersFrom done rest) (rest : List Char) :
    characters (front ++ rest) = done.reverse ++ characters rest := by
  have happend := charactersFrom_append [] done rest
  rw [List.nil_append] at happend
  exact (h rest).trans happend

/-- A literal of one character is replaced by the code of that character. -/
private theorem characters_code {c : Char} (hc : isCoded c = true) (rest : List Char) :
    characters (['\'', c, '\''] ++ rest) = Nat.toDigits 10 c.toNat ++ characters rest := by
  obtain ⟨hquote, hslash, _, hcode, _⟩ := isCoded_spec hc
  rw [characters_of_done _ (reversedCode c.toNat) fun rest => by simp [charactersFrom, hcode],
    reversedCode, List.reverse_reverse]

/-- A literal is replaced in the same way whatever follows it. -/
theorem exists_characters_quoted {q : List Char} (hq : Quoted q) :
    ∃ front, ∀ rest, characters (q ++ rest) = front ++ characters rest := by
  have hsame (h : ∀ rest, charactersFrom [] (q ++ rest) = charactersFrom q.reverse rest) :
      ∃ front, ∀ rest, characters (q ++ rest) = front ++ characters rest :=
    ⟨_, characters_of_done q q.reverse h⟩
  have hcoded (n : Nat)
      (h : ∀ rest, charactersFrom [] (q ++ rest) = charactersFrom (reversedCode n) rest) :
      ∃ front, ∀ rest, characters (q ++ rest) = front ++ characters rest :=
    ⟨_, characters_of_done q (reversedCode n) h⟩
  cases hq with
  | @plain c hc =>
    by_cases hslash : c = '\\'
    · subst hslash
      exact hsame fun rest => by simp [charactersFrom]
    · cases hcode : plainCode? c with
      | none => exact hsame fun rest => by simp [charactersFrom, hcode]
      | some n => exact hcoded n fun rest => by simp [charactersFrom, hcode]
  | @escaped c hc =>
    cases hcode : escapeCode? c with
    | none => exact hsame fun rest => by simp [charactersFrom, hcode]
    | some n => exact hcoded n fun rest => by simp [charactersFrom, hcode]

/-- A character that starts no literal stays. -/
theorem characters_cons {c : Char} {cs : List Char} (hnone : Unquoted (c :: cs)) :
    characters (c :: cs) = c :: characters cs := by
  have hstep : charactersFrom [] (c :: cs) = charactersFrom ([] ++ [c]) cs := by
    by_cases hquotes : c = '\'' ∧ ∃ rest, cs = '\'' :: rest
    · obtain ⟨rfl, rest, rfl⟩ := hquotes
      simp [charactersFrom]
    · refine charactersFrom.eq_6 [] c cs ?_ ?_ ?_ ?_
      · rintro rest rfl rfl
        exact hnone _ (.plain (by decide)) ⟨rest, rfl⟩
      · rintro d rest rfl rfl
        by_cases hd : d = '\''
        · subst hd
          exact hnone _ (.plain (by decide)) ⟨'\'' :: rest, rfl⟩
        · exact hnone _ (.escaped hd) ⟨rest, rfl⟩
      · rintro rest rfl rfl
        exact hquotes ⟨rfl, rest, rfl⟩
      · rintro d rest rfl rfl
        by_cases hd : d = '\''
        · subst hd
          exact hquotes ⟨rfl, '\'' :: rest, rfl⟩
        · exact hnone _ (.plain hd) ⟨rest, rfl⟩
  rw [charactersFrom_append] at hstep
  exact hstep

/-- Codes are what literals are replaced by. -/
theorem Recoded.characters_eq {cs ds : List Char} (h : Recoded cs ds) :
    characters cs = characters ds := by
  induction h with
  | nil => rfl
  | @code c cs ds hc _ ih =>
    have hquote : '\'' ∉ Nat.toDigits 10 c.toNat := fun hmem => by cases isDigit_of_mem_code hmem
    rw [characters_code hc, characters_append_of_not_mem hquote, ih]
  | kept hq _ ih =>
    obtain ⟨front, hfront⟩ := exists_characters_quoted hq
    rw [hfront, hfront, ih]
  | other hnone hrest ih => rw [characters_cons hnone, characters_cons (hrest.unquoted hnone), ih]

/-! ## Comments and blanks -/

namespace Recoded

variable {cs ds : List Char}

/-- A character outside of literals may be put in front. -/
theorem other_of_prefix {c : Char} {front rest : List Char}
    (hnone : Unquoted (c :: cs)) (hfront : front <+: cs) (h : Recoded front rest) :
    Recoded (c :: front) (c :: rest) :=
  .other (fun q hq hquoted =>
    hnone q hq (hquoted.trans (List.cons_prefix_cons.mpr ⟨rfl, hfront⟩))) h

/-- A comment is cut off at the same place, for no code stands for its semicolon. -/
theorem uncommented (h : Recoded cs ds) :
    Recoded (cs.takeWhile (· != ';')) (ds.takeWhile (· != ';')) := by
  induction h with
  | nil => exact .nil
  | @code c cs ds hc _ ih =>
    have hsemicolon := (isCoded_spec hc).2.2.1
    have hliteral : ∀ d ∈ ['\'', c, '\''], (d != ';') = true := by simp [hsemicolon]
    have hcode : ∀ d ∈ Nat.toDigits 10 c.toNat, (d != ';') = true := fun d hd =>
      bne_iff_ne.mpr (ne_of_isDigit (isDigit_of_mem_code hd) (by decide))
    rw [List.takeWhile_append_of_pos hliteral, List.takeWhile_append_of_pos hcode]
    exact .code hc ih
  | @kept q cs ds hq _ ih =>
    -- A literal with a semicolon is cut itself, and then it is the same in both texts.
    rw [List.takeWhile_append, List.takeWhile_append]
    split
    · exact .kept hq ih
    · exact .refl _
  | @other c cs ds hnone _ ih =>
    by_cases hc : c = ';'
    · subst hc
      exact .nil
    · rw [List.takeWhile_cons, List.takeWhile_cons, if_pos (bne_iff_ne.mpr hc),
        if_pos (bne_iff_ne.mpr hc)]
      exact other_of_prefix hnone (List.takeWhile_prefix _) ih

/-- Blanks at the front can be dropped on both sides. -/
theorem dropWhile_blank (h : Recoded cs ds) :
    Recoded (cs.dropWhile Text.isBlank) (ds.dropWhile Text.isBlank) := by
  have hquote : ¬ Text.isBlank '\'' = true := by decide
  induction h with
  | nil => exact .nil
  | @code c cs ds hc hrest _ =>
    obtain ⟨d, e, more, hcode, hd, _⟩ := exists_code_eq_cons hc
    have hkeep := Recoded.code hc hrest
    rw [hcode] at hkeep ⊢
    rw [List.cons_append, List.dropWhile_cons_of_neg hquote, List.cons_append (a := d),
      List.dropWhile_cons_of_neg (not_isBlank_of_isDigit hd)]
    exact hkeep
  | @kept q cs ds hq hrest _ =>
    have hkeep := Recoded.kept hq hrest
    obtain ⟨more, rfl⟩ := hq.exists_eq_cons
    rw [List.cons_append, List.dropWhile_cons_of_neg hquote, List.cons_append,
      List.dropWhile_cons_of_neg hquote]
    exact hkeep
  | @other c cs ds hnone hrest ih =>
    by_cases hc : Text.isBlank c = true
    · rw [List.dropWhile_cons_of_pos hc, List.dropWhile_cons_of_pos hc]
      exact ih
    · rw [List.dropWhile_cons_of_neg hc, List.dropWhile_cons_of_neg hc]
      exact .other hnone hrest

/-- Blanks at the end can be dropped on both sides. -/
theorem rdropWhile_blank (h : Recoded cs ds) :
    Recoded (cs.rdropWhile Text.isBlank) (ds.rdropWhile Text.isBlank) := by
  induction h with
  | nil => exact .nil
  | @code c cs ds hc _ ih =>
    have hcode : (Nat.toDigits 10 c.toNat).rdropWhile Text.isBlank = Nat.toDigits 10 c.toNat :=
      List.rdropWhile_eq_self_iff.mpr fun hne =>
        not_isBlank_of_isDigit (isDigit_of_mem_code (List.getLast_mem hne))
    rw [Text.rdropWhile_append_of_eq (Quoted.plain (isCoded_spec hc).1).rdropWhile_blank,
      Text.rdropWhile_append_of_eq hcode]
    exact .code hc ih
  | @kept q cs ds hq _ ih =>
    rw [Text.rdropWhile_append_of_eq hq.rdropWhile_blank,
      Text.rdropWhile_append_of_eq hq.rdropWhile_blank]
    exact .kept hq ih
  | @other c cs ds hnone _ ih =>
    have hcons (rest : List Char) : (c :: rest).rdropWhile Text.isBlank =
        if rest.rdropWhile Text.isBlank = [] then [c].rdropWhile Text.isBlank
        else c :: rest.rdropWhile Text.isBlank := Text.rdropWhile_append Text.isBlank [c] rest
    rw [hcons cs, hcons ds]
    by_cases hcs : cs.rdropWhile Text.isBlank = []
    · rw [if_pos hcs, if_pos (ih.eq_nil_iff.mp hcs)]
      exact .refl _
    · rw [if_neg hcs, if_neg (mt ih.eq_nil_iff.mpr hcs)]
      exact other_of_prefix hnone (List.rdropWhile_prefix _ _) ih

/-- Both sides can be trimmed. -/
private theorem trimmed (h : Recoded cs ds) : Recoded (Text.trim cs) (Text.trim ds) :=
  h.dropWhile_blank.rdropWhile_blank

/-- Words that are neither quoted nor spelled with digits are found in front of one text as in
front of the other. -/
theorem head?_fields_iff (h : Recoded cs ds) {word : List Char}
    (hword : word.all isFixed = true) :
    (Text.fields cs).head? = some word ↔ (Text.fields ds).head? = some word := by
  have hforth := Text.takeWhile_of_follows (fun ds hds => hds.eq_nil_iff.mp rfl)
    (fun c cs ds hds hc => hds.of_cons_left (isFixed_iff.mp hc).1) (fun _ => isFixed_of_isBlank)
    h.dropWhile_blank (List.all_eq_true.mp hword)
  have hback := Text.takeWhile_of_follows (R := flip Recoded)
    (fun ds hds => hds.eq_nil_iff.mpr rfl)
    (fun c cs ds hds hc => by
      obtain ⟨rest, rfl, hrest⟩ := of_cons_right hds (isFixed_iff.mp hc).2
      exact ⟨rest, rfl, hrest (isFixed_iff.mp hc).1⟩)
    (fun _ => isFixed_of_isBlank) h.dropWhile_blank (List.all_eq_true.mp hword)
  rw [Text.fields, Text.fields, Text.head?_fieldsBy_iff, Text.head?_fieldsBy_iff]
  exact and_congr_right' ⟨hforth, hback⟩

end Recoded

end Literal

namespace Assembler

/-- Blanks at the end of a line do not matter, nor does the end of a comment. -/
private theorem stripped_concat {c : Char} (hc : Text.isBlank c = true) (line : List Char) :
    stripped (String.ofList (line ++ [c])) = stripped (String.ofList line) := by
  have htrim (cs : List Char) : Text.trim (cs ++ [c]) = Text.trim cs := by
    change ((cs ++ [c]).dropWhile Text.isBlank).rdropWhile Text.isBlank =
      (cs.dropWhile Text.isBlank).rdropWhile Text.isBlank
    rw [List.dropWhile_append]
    split
    · next hcs => simp [hc, List.isEmpty_iff.mp hcs]
    · rw [List.rdropWhile_concat_pos _ _ _ hc]
  have hsemicolon : (c != ';') = true := by
    rw [bne_iff_ne]
    rintro rfl
    cases hc
  rw [stripped, stripped, String.toList_ofList, String.toList_ofList, List.takeWhile_append]
  split
  · next hline =>
    rw [List.takeWhile_cons, if_pos hsemicolon, List.takeWhile_nil, htrim,
      (List.takeWhile_prefix _).eq_of_length hline]
  · rfl

/-- What is left of a line without comment and blanks is recoded with the line. -/
theorem recoded_stripped {line coded : List Char} (h : Literal.Recoded line coded) :
    Literal.Recoded (stripped (String.ofList (Source.dropReturn line))).toList
      (stripped (String.ofList (Source.dropReturn coded))).toList := by
  have hreturn (line : List Char) :
      stripped (String.ofList (Source.dropReturn line)) = stripped (String.ofList line) := by
    unfold Source.dropReturn
    split
    · next hlast =>
      rw [← stripped_concat (c := '\r') (by decide), List.dropLast_append_getLast? _ hlast]
    · rfl
  rw [hreturn, hreturn, stripped, stripped]
  simpa using h.uncommented.trimmed

end Assembler

namespace Source

open Literal (Recoded)

/-- Sources of which the second has codes in place of some literals of the first. The codes may
shorten a line, but do not make one fit that was too long. -/
structure Recodes (s t : Source) : Prop where
  failure : s.failure = t.failure
  lines : List.Forall₂ (fun line coded => Recoded line coded ∧ fits line = fits coded)
    (rawLines s.text.toList) (rawLines t.text.toList)

namespace Recodes

variable {s t : Source}

/-- Lines are too long on both sides or on neither. -/
private theorem hasLongLine_eq (h : Recodes s t) : s.hasLongLine = t.hasLongLine := by
  have hall {xs ys : List (List Char)}
      (hlines : List.Forall₂ (fun line coded => Recoded line coded ∧ fits line = fits coded)
        xs ys) : xs.all fits = ys.all fits := by
    induction hlines with
    | nil => rfl
    | cons hline _ ih => rw [List.all_cons, List.all_cons, hline.2, ih]
  rw [hasLongLine, hasLongLine, hall h.lines]

/-- The lines that are read have codes in place of literals, too. -/
theorem forall₂_lines (h : Recodes s t) :
    List.Forall₂ (fun line coded => Recoded (Assembler.stripped line).toList
      (Assembler.stripped coded).toList) s.lines t.lines := by
  have hfront {xs ys : List (List Char)}
      (hlines : List.Forall₂ (fun line coded => Recoded line coded ∧ fits line = fits coded)
        xs ys) : List.Forall₂ Recoded (xs.takeWhile fits) (ys.takeWhile fits) := by
    induction hlines with
    | nil => exact .nil
    | @cons line coded xs ys hline _ ih =>
      rw [List.takeWhile_cons, List.takeWhile_cons, hline.2]
      split
      · exact .cons hline.1 ih
      · exact .nil
  rw [Source.lines, Source.lines, List.forall₂_map_left_iff, List.forall₂_map_right_iff]
  exact (hfront h.lines).imp fun line coded hline => Assembler.recoded_stripped hline

end Recodes

end Source

namespace Assembler

open Literal (Recoded)

/-! ## Reading -/

/-- Literals with codes in place of them are the same words. -/
theorem wordsOf_recoded {line coded : String} (h : Recoded line.toList coded.toList)
    (a : Assembler) : a.wordsOf line = a.wordsOf coded := by
  rw [wordsOf, wordsOf, h.characters_eq]

/-- A line and its recoded form are read alike. -/
private theorem readLine_recoded {line coded : String} (h : Recoded line.toList coded.toList)
    (depth number : Nat) :
    (readLine depth number line : Pass Unit) = readLine depth number coded := by
  have hwords : readWords line = readWords coded := by
    funext a
    rw [readWords, readWords, wordsOf_recoded h]
  obtain ⟨call, hcall⟩ := exists_readLine_eq depth
  rw [hcall, readLineWith, readLineWith, hwords]

/-- The first field of a text, as characters and as a string. -/
theorem head?_fields_eq_iff {cs : List Char} {word : String} :
    ((Text.fields cs).map String.ofList).head? = some word ↔
      (Text.fields cs).head? = some word.toList := by
  rw [List.head?_map, Option.map_eq_some_iff]
  constructor
  · rintro ⟨field, hfield, rfl⟩
    rw [hfield, String.toList_ofList]
  · intro hfield
    exact ⟨_, hfield, String.ofList_toList⟩

/-- Outside of macros a line is read as the same with codes. -/
theorem readSourceLine_recoded {line coded : String} (h : Recoded line.toList coded.toList)
    (hopens : ((Text.fields line.toList).map String.ofList).head? ≠ some ".macro")
    (number : Nat) :
    (readSourceLine number line none : Pass (Option String)) =
      readSourceLine number coded none := by
  have hsame (word : String) (hword : word.toList.all Literal.isFixed = true) :
      ((Text.fields line.toList).map String.ofList).head? = some word ↔
        ((Text.fields coded.toList).map String.ofList).head? = some word := by
    rw [head?_fields_eq_iff, head?_fields_eq_iff, h.head?_fields_iff hword]
  rw [readSourceLine_of_not_opening hopens,
    readSourceLine_of_not_opening (mt (hsame ".macro" (by decide)).mpr hopens),
    readLine_recoded h]
  simp only [hsame ".endm" (by decide)]

/-- A line that opens no macro leaves none open. -/
private theorem opened_of_readSourceLine {line : String} {number : Nat} {a b : Assembler}
    {opened : Option String}
    (hopens : ((Text.fields line.toList).map String.ofList).head? ≠ some ".macro")
    (hrun : (readSourceLine number line none).run a = .ok opened b) : opened = none := by
  rw [readSourceLine_of_not_opening hopens] at hrun
  split at hrun
  · cases hrun
  · rw [EStateM.run_bind] at hrun
    cases hline : (readLine maxDepth number line).run a with
    | error e c =>
      rw [hline] at hrun
      cases hrun
    | ok x c =>
      rw [hline] at hrun
      cases hrun
      rfl

/-- Outcomes that differ at most in the text of the line on which an error is. -/
inductive UpToText {α : Type} (R : α → α → Prop) :
    EStateM.Result AssemblyError Assembler α → EStateM.Result AssemblyError Assembler α → Prop
  | ok {x y : α} (a : Assembler) (h : R x y) : UpToText R (.ok x a) (.ok y a)
  | error (number : Nat) (text coded : String) (cause : AssemblyError) (a : Assembler) :
      UpToText R (.error (.atLine number text cause) a) (.error (.atLine number coded cause) a)

/-- Positions behind lines with the same number, outside of macros. -/
structure Position.Parallel (p q : Position) : Prop where
  number : p.number = q.number
  unopened : p.opened = none ∧ q.opened = none

/-- A part of the reading that reports its errors on one of two lines of the same number. -/
theorem upToText_within {α : Type} (p : Pass α) (number : Nat) (text coded : String)
    (a : Assembler) :
    UpToText Eq ((within (.atLine number text) p).run a)
      ((within (.atLine number coded) p).run a) := by
  rw [Course.run_within, Course.run_within]
  cases p.run a with
  | ok x b => exact .ok b rfl
  | error e b => exact .error number text coded e b

/-- Lines and their recoded forms are read alike, up to the texts that errors quote. -/
theorem upToText_readLines {lines codedLines : List String}
    (hlines : List.Forall₂ (fun line coded => Recoded (stripped line).toList
      (stripped coded).toList) lines codedLines)
    (hopens : ∀ line ∈ lines,
      ((Text.fields (stripped line).toList).map String.ofList).head? ≠ some ".macro")
    {p q : Position} (hpq : p.Parallel q) (a : Assembler) :
    UpToText Position.Parallel ((readLines p lines).run a) ((readLines q codedLines).run a) := by
  induction hlines generalizing p q a with
  | nil => exact .ok a hpq
  | @cons line coded lines codedLines hline _ ih =>
    obtain ⟨hfirst, hothers⟩ := List.forall_mem_cons.mp hopens
    have hread := readSourceLine_recoded hline hfirst (q.number + 1)
    rw [readLines, readLines, hpq.number, hpq.unopened.1, hpq.unopened.2, EStateM.run_bind,
      EStateM.run_bind, Course.run_within, Course.run_within, ← hread]
    cases hrun : (readSourceLine (q.number + 1) (stripped line) none).run a with
    | error e b => exact .error _ _ _ e b
    | ok opened b =>
      obtain rfl := opened_of_readSourceLine hfirst hrun
      refine ih hothers ?_ b
      exact ⟨rfl, rfl, rfl⟩

/-! ## Literals of separators and of a semicolon -/

/-- A source whose literals would be cut apart if they were not replaced first. -/
def separatorLiterals : Source := { text := ".data ' ',',' '$'" }

/-- The same source with codes. -/
def separatorCodes : Source := { text := ".data 32,44 36" }

/-- Each literal stands for its code. -/
theorem recodes_separators : separatorLiterals.Recodes separatorCodes := by
  have hline : Recoded ".data ' ',',' '$'".toList ".data 32,44 36".toList :=
    .append_left ".data ".toList (by decide) <| .code (c := ' ') (by decide) <|
      .append_left [','] (by decide) <| .code (c := ',') (by decide) <|
        .append_left [' '] (by decide) <| .code (c := '$') (by decide) .nil
  have hliterals : Source.rawLines separatorLiterals.text.toList =
      [".data ' ',',' '$'".toList] := rfl
  have hcodes : Source.rawLines separatorCodes.text.toList = [".data 32,44 36".toList] := rfl
  refine ⟨rfl, ?_⟩
  rw [hliterals, hcodes]
  exact .cons ⟨hline, by decide⟩ .nil

/-- No line of the source opens a macro. -/
private theorem not_opening_of_mem_separatorLiterals : ∀ line ∈ separatorLiterals.lines,
    ((Text.fields (stripped line).toList).map String.ofList).head? ≠ some ".macro" := by
  have hlines : separatorLiterals.lines = [".data ' ',',' '$'"] := rfl
  have hfields : (Text.fields (stripped ".data ' ',',' '$'").toList).map String.ofList =
      [".data", "'", "',','", "'$'"] := rfl
  rw [hlines]
  intro line hmem
  rw [List.mem_singleton.mp hmem, hfields]
  decide

/-- A source whose literal is a semicolon. -/
def semicolonLiteral : Source := { text := "out #';'" }

/-- The code of a semicolon in place of its literal. -/
def semicolonCode : Source := { text := "out #59" }

/-- The image of a source that is written as items. -/
theorem exists_image_of_items {source : Source} (items : List Item)
    (hsource : source = { text := String.ofList (Item.text false items) })
    (hfits : ∀ item ∈ items, Text.byteLength item.line.text < Source.lineLimit)
    (hsize : (items.flatMap Item.codes).length ≤ 2 ^ 63) :
    ∃ l b, (∀ order, (parse order source).run ({} : Assembler) = .ok l b) ∧
      l.image? = some (items.flatMap Item.codes).toArray := by
  obtain ⟨l, b, hparse, hterms⟩ := run_parse_items .fresh items false hfits
  rw [hsource]
  exact ⟨l, b, hparse, image?_of_codes (hparse .ascending) (codes_of_terms hterms) hsize⟩

/-- The codes are assembled to themselves. -/
private theorem exists_image_separatorCodes :
    ∃ l b, (∀ order, (parse order separatorCodes).run ({} : Assembler) = .ok l b) ∧
      l.image? = some #[32, 44, 36] := by
  let blank : Gap := ⟨[' '], by decide, by decide⟩
  let comma : Gap := ⟨[','], by decide, by decide⟩
  let items : List Item := [.data [⟨blank, 32, .inRadix .decimal 32⟩,
    ⟨comma, 44, .inRadix .decimal 44⟩, ⟨blank, 36, .inRadix .decimal 36⟩] (List.cons_ne_nil _ _)]
  have htext : ".data 32,44 36" = String.ofList (Item.text false items) := by decide
  exact exists_image_of_items items (congrArg (Source.mk · none) htext) (by decide) (by decide)

/-- The code is assembled as a value. -/
private theorem exists_image_semicolonCode :
    ∃ l b, (∀ order, (parse order semicolonCode).run ({} : Assembler) = .ok l b) ∧
      l.image? = some #[104, 59] := by
  let blank : Gap := ⟨[' '], by decide, by decide⟩
  let items : List Item :=
    [.operation .output [(.immediate, ⟨blank, 59, .inRadix .decimal 59⟩)] rfl (by decide)]
  have htext : "out #59" = String.ofList (Item.text false items) := by decide
  exact exists_image_of_items items (congrArg (Source.mk · none) htext) (by decide) (by decide)

/-- A semicolon ends its line, also where it stands between quotes. -/
private theorem stripped_semicolon (front rest : List Char) :
    stripped (String.ofList (front ++ '\'' :: ';' :: rest)) =
      stripped (String.ofList (front ++ ['\''])) := by
  rw [stripped, stripped, String.toList_ofList, String.toList_ofList, List.takeWhile_append,
    List.takeWhile_append]
  rfl

/-- What is left of the literal is no character. -/
private theorem run_semicolonLine :
    (readSourceLine 1 "out #'" none).run (fresh {}) =
      .error (.notCharacter "") ((fresh {}).numbered 1) := by
  have hbare := Bare.fresh.numbered 1
  have hfields : (Text.fields "out #'".toList).map String.ofList = ["out", "#'"] := rfl
  have hwords : ((fresh {}).numbered 1).wordsOf "out #'" = .ok ["out", "#'"] := by
    have hfront : '\'' ∉ "out #".toList := by decide
    have hquote : Literal.characters ['\''] = ['\''] := by
      simp [Literal.characters, Literal.charactersFrom]
    have hcharacters : Literal.characters "out #'".toList = "out #'".toList := by
      rw [show "out #'".toList = "out #".toList ++ ['\''] from rfl,
        Literal.characters_append_of_not_mem hfront, hquote]
    rw [wordsOf, hcharacters, Literal.expressions_of_not_mem (by decide)]
    rfl
  have hread : Operand.read ((fresh {}).numbered 1).equates "#'" = .error (.notCharacter "") := by
    have hresolve : Operand.resolve ((fresh {}).numbered 1).equates "'" =
        .error (.notCharacter "") := by
      rw [Operand.resolve, hbare.unbound _ (by decide)]
      rfl
    change (Operand.resolve ((fresh {}).numbered 1).equates "'" >>= fun t =>
      .ok (Mode.immediate, t)) = _
    rw [hresolve]
    rfl
  have hassemble : Instruction.assemble ((fresh {}).numbered 1).equates ["out", "#'"] =
      .error (.notCharacter "") := by
    change Instruction.assembleOperation ((fresh {}).numbered 1).equates .output ["#'"] = _
    rw [Instruction.assembleOperation, List.mapM_cons, hread]
    rfl
  obtain ⟨_, hcall⟩ := exists_readLine_eq maxDepth
  refine run_readSourceLine_of_error (by rw [hfields]; decide) (by rw [hfields]; decide) ?_
  rw [hcall, run_readLineWith hwords (by decide) (run_defineLabels_of_none rfl _ _)
    (hbare.map_substitute (by decide)) Std.ExtTreeMap.getElem?_empty]
  exact run_emit_of_error hassemble 1

/-- A source is assembled as the same source with decimal codes in place of any of its
character literals, but for those of a semicolon: into the same listing, or with the same error
on a line of the same number, and with the same assembler left behind. -/
theorem parse_recoded {s t : Source} (hrecodes : s.Recodes t)
    (hmacros : ∀ line ∈ s.lines,
      ((Text.fields (stripped line).toList).map String.ofList).head? ≠ some ".macro")
    (order : LinkOrder) (a : Assembler) :
    UpToText Eq ((parse order s).run a) ((parse order t).run a) := by
  have hlines := upToText_readLines hrecodes.forall₂_lines hmacros
    (p := {}) (q := {}) ⟨rfl, rfl, rfl⟩ a.fresh
  rw [Course.run_parse_eq, Course.run_parse_eq]
  generalize (readLines {} s.lines).run a.fresh = read at hlines
  generalize (readLines {} t.lines).run a.fresh = codedRead at hlines
  cases hlines with
  | error number text coded cause b => exact .error number text coded cause b
  | @ok p q b hpq =>
    have hfinish : finish order s p = finish order t q := by
      rw [finish, finish, hrecodes.hasLongLine_eq, hrecodes.failure, hpq.unopened.1,
        hpq.unopened.2]
    dsimp only
    rw [hfinish, hpq.number]
    exact upToText_within _ _ _ _ _

/-- Separators and a dollar sign lose their meaning in a literal. -/
theorem parse_recoded_separators :
    separatorLiterals.Recodes separatorCodes ∧
      ∃ l b, (∀ order, (parse order separatorLiterals).run ({} : Assembler) = .ok l b) ∧
        l.image? = some #[32, 44, 36] := by
  obtain ⟨l, b, hparse, himage⟩ := exists_image_separatorCodes
  refine ⟨recodes_separators, l, b, fun order => ?_, himage⟩
  have hsame := parse_recoded recodes_separators not_opening_of_mem_separatorLiterals order {}
  rw [hparse] at hsame
  generalize (parse order separatorLiterals).run ({} : Assembler) = outcome at hsame
  cases hsame with
  | ok a h => rw [h]

/-- The code of a semicolon can be put out, and a literal of it cannot. -/
theorem semicolon_literal_fails :
    (∃ b, ∀ order, (parse order semicolonLiteral).run ({} : Assembler) =
        .error (.atLine 1 "out #'" (.notCharacter "")) b) ∧
      ∃ l b, (∀ order, (parse order semicolonCode).run ({} : Assembler) = .ok l b) ∧
        l.image? = some #[104, 59] := by
  have hlines : semicolonLiteral.lines =
      [String.ofList ("out #".toList ++ '\'' :: ';' :: ['\''])] := rfl
  have hstripped : stripped (String.ofList ("out #".toList ++ ['\''])) = "out #'" := rfl
  refine ⟨⟨(fresh {}).numbered 1, fun order => ?_⟩, exists_image_semicolonCode⟩
  rw [Course.run_parse_eq, hlines, readLines, stripped_semicolon, hstripped, EStateM.run_bind,
    Course.run_within, run_semicolonLine]

end Assembler

end TapeMachine
