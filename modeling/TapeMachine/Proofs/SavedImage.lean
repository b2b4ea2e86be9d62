import TapeMachine.Image
import TapeMachine.Proofs.ImageGrammar
import TapeMachine.Proofs.Numerals
import TapeMachine.Proofs.Paths
import TapeMachine.Proofs.TextParts

/-!
# Saved images

An image is written as one line of decimal numbers. What is read back from this line is
the same image, word by word and whatever follows the line, and so is what is loaded from a
file that was written with it. Only the empty image is refused, and no text spells it.
-/

namespace TapeMachine

/-- The characters of joined words are those of the words and the separator. -/
theorem Text.forall_mem_intercalate {P : Char → Prop} {s : Char} (hs : P s)
    {words : List (List Char)} (hwords : ∀ word ∈ words, ∀ c ∈ word, P c) :
    ∀ c ∈ [s].intercalate words, P c := by
  induction words with
  | nil => simp
  | cons word words ih =>
    obtain ⟨hword, hrest⟩ := List.forall_mem_cons.mp hwords
    by_cases hnil : words = []
    · rw [hnil, List.intercalate_singleton]
      exact hword
    · rw [List.intercalate_cons_of_ne_nil hnil]
      simp only [List.forall_mem_append, List.forall_mem_singleton]
      exact ⟨⟨hword, hs⟩, ih hrest⟩

/-- A text without blanks is trimmed already. -/
theorem Text.trim_of_forall {cs : List Char} (h : ∀ c ∈ cs, isBlank c = false) : trim cs = cs :=
  trim_eq_self (fun c hc => h c (List.mem_of_head? hc)) fun c hc => h c (List.mem_of_getLast? hc)

namespace Numeral

/-- A written word has only a sign and digits in it, which neither end it nor separate it
from others. -/
theorem plain_of_mem_ofWord {w : Word} {c : Char} (hc : c ∈ (ofWord w).toList) :
    Text.isBlank c = false ∧ c ≠ ',' ∧ c ≠ '\n' := by
  have hdigit : c.isDigit = true → Text.isBlank c = false ∧ c ≠ ',' ∧ c ≠ '\n' := by
    intro hdigit
    have hrange : '0'.toNat ≤ c.toNat ∧ c.toNat ≤ '9'.toNat := Char.isDigit_iff_toNat.mp hdigit
    have hnine : '9'.toNat = 57 := rfl
    have hlt : c.toNat < 58 := by omega
    exact Text.of_toNat_lt
      (fun c => c.isDigit = true → Text.isBlank c = false ∧ c ≠ ',' ∧ c ≠ '\n') (by decide) hlt
      hdigit
  rw [toList_ofWord] at hc
  rcases List.mem_append.mp hc with hsign | hdigits
  · have hminus : c = '-' := by
      split at hsign
      · exact List.mem_singleton.mp hsign
      · cases hsign
    rw [hminus]
    decide
  · exact hdigit (Nat.isDigit_of_mem_toDigits (by decide) (by decide) hdigits)

/-- Something is written for every word. -/
theorem toList_ofWord_ne_nil (w : Word) : (ofWord w).toList ≠ [] := by
  rw [toList_ofWord]
  exact List.append_ne_nil_of_right_ne_nil _ Nat.toDigits_ne_nil

end Numeral

namespace Image

/-- The words of an image in decimal. -/
def numerals (image : List Word) : List (List Char) :=
  image.map fun w => (Numeral.ofWord w).toList

/-- The line of an image. -/
def line (image : List Word) : List Char := [','].intercalate (numerals image)

/-- An image is rendered as one line. -/
private theorem toList_render (image : List Word) : (render image).toList = line image ++
    ['\n'] := by
  rw [render, String.toList_append, String.toList_intercalate, List.map_map]
  rfl

variable {image : List Word}

/-- Numerals have no blanks, commas or line feeds. -/
theorem plain_of_mem_numerals :
    ∀ numeral ∈ numerals image, ∀ c ∈ numeral, Text.isBlank c = false ∧ c ≠ ',' ∧ c ≠ '\n' := by
  intro numeral hnumeral c hc
  obtain ⟨w, _, rfl⟩ := List.mem_map.mp hnumeral
  exact Numeral.plain_of_mem_ofWord hc

/-- Nothing on the line of an image is blank, the end of a line included. -/
theorem plain_of_mem_line : ∀ c ∈ line image, Text.isBlank c = false ∧ c ≠ '\n' :=
  Text.forall_mem_intercalate (by decide) fun numeral hnumeral c hc =>
    have hplain := plain_of_mem_numerals numeral hnumeral c hc
    ⟨hplain.1, hplain.2.2⟩

/-- The pieces of the line are the numerals. -/
theorem pieces_line (hne : image ≠ []) :
    Text.pieces (· == ',') (line image) = numerals image := by
  refine Text.pieces_intercalate (by simpa [numerals] using hne) ?_
  intro numeral hnumeral hcomma
  exact (plain_of_mem_numerals numeral hnumeral ',' hcomma).2.1 rfl

/-- A numeral is read as the word that it was written for. -/
theorem word?_ofWord (w : Word) : word? (Numeral.ofWord w).toList = some w := by
  rw [word?, Numeral.readDecimal_ofWord]
  rfl

/-- Words in decimal are read as these words. -/
theorem readWords_numerals (image : List Word) : readWords (numerals image) = .ok image := by
  rw [readWords_eq_ok_iff, numerals, List.forall₂_map_left_iff, List.forall₂_same]
  exact fun w _ => word?_ofWord w

/-- The line of an image is read as this image, unless it is empty. -/
theorem parse_line (hne : image ≠ []) : parse (line image) = .ok image := by
  have hpieces := pieces_line hne
  have htext : (line image).isEmpty = false := by
    rw [List.isEmpty_eq_false_iff]
    intro hnil
    obtain ⟨w, rest, rfl⟩ := List.exists_cons_of_ne_nil hne
    rw [hnil] at hpieces
    exact Numeral.toList_ofWord_ne_nil w (List.cons.inj hpieces).1.symm
  have htrim : Text.trim (line image) = line image :=
    Text.trim_of_forall fun c hc => (plain_of_mem_line c hc).1
  have hwords : (numerals image).map Text.trim = (numerals image).map id :=
    List.map_congr_left fun numeral hnumeral =>
      Text.trim_of_forall fun c hc => (plain_of_mem_numerals numeral hnumeral c hc).1
  unfold parse
  simp only [htrim, htext, hpieces, hwords, List.map_id]
  rw [if_neg (by decide), readWords_numerals]

/-- The text of an image is read as this image, unless it is empty, whatever follows it. -/
theorem read_render_append (image : List Word) (more : String) (failure : Option String) :
    read ⟨render image ++ more, failure⟩ = if image = [] then .error .empty else .ok image := by
  have htext : render image ++ more = String.ofList (line image ++ '\n' :: more.toList) := by
    rw [← String.toList_inj, String.toList_append, toList_render, String.toList_ofList,
      List.append_assoc, List.singleton_append]
  have hline : '\n' ∉ line image := fun hmem => (plain_of_mem_line '\n' hmem).2 rfl
  rw [htext, read_of_line hline]
  by_cases hnil : image = []
  · rw [hnil, if_pos rfl]
    rfl
  · rw [if_neg hnil]
    exact parse_line hnil

/-- What was rendered is read as the image, unless it is empty. -/
theorem read_render (image : List Word) :
    read { text := render image } = if image = [] then .error .empty else .ok image := by
  have hread := read_render_append image "" none
  rwa [String.append_empty] at hread

/-- Images are written and read back. A sink that refuses nothing takes the text of an image,
which is read as this image whatever follows it, but for the empty image, which is refused. An
image that was read from any text is read again from what is written of it. -/
theorem read_back_of_write (image : List Word) :
    ∃ text, (∀ written, write { written } image = .ok { written := written ++ text }) ∧
      (∀ more failure, read ⟨text ++ more, failure⟩ =
        if image = [] then .error .empty else .ok image) ∧
      ∀ other, parse other = .ok image → read { text } = .ok image := by
  refine ⟨render image, fun written => rfl, read_render_append image, fun other hparse => ?_⟩
  have hne : image ≠ [] := by
    intro hnil
    have hlength := length_of_parse hparse
    rw [hnil, List.length_nil] at hlength
    omega
  rw [read_render, if_neg hne]

/-- An image is loaded from a file that was written with it, unless it is empty. -/
theorem load_put {files : Files} {path key : String} (htarget : files.target path = .ok (.file key))
    (image : List Word) (stdin : String) :
    load (files.put key (render image)) stdin path =
      if image = [] then .error (.inFile path .empty) else .ok image := by
  rw [load, Files.openRead_put htarget]
  dsimp only
  rw [read_render]
  by_cases hnil : image = []
  · simp only [if_pos hnil]
  · simp only [if_neg hnil]

end Image

end TapeMachine
