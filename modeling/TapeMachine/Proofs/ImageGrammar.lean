import Mathlib.Data.List.DropRight
import Mathlib.Data.List.Forall2
import TapeMachine.Image
import TapeMachine.Proofs.Numerals
import TapeMachine.Proofs.TextParts

/-!
# The grammar of images

The text of an image is a list of signed decimals between commas, each with blanks around
it. The blanks around the whole text are removed before it is taken apart, which makes no
difference to its pieces: they belong to the blanks around the first and the last one. So a
text is an image exactly when every piece of it spells a word, and the first piece that
spells none decides the error.
-/

namespace TapeMachine

namespace Text

/-! ## Blanks around a text -/

/-- A text with blanks in front of it and behind it. -/
def Padded (core text : List Char) : Prop :=
  ∃ left right, text = left ++ core ++ right ∧ (∀ c ∈ left, isBlank c = true) ∧
    ∀ c ∈ right, isBlank c = true

/-- What is left of a text without the blanks at its two ends. -/
structure Trims (text core : List Char) : Prop where
  padded : Padded core text
  head : ∀ c, core.head? = some c → isBlank c = false
  last : ∀ c, core.getLast? = some c → isBlank c = false

/-- Blanks around a text are trimmed away. -/
theorem trim_of_padded {core text : List Char} (h : Padded core text) : trim text = trim core := by
  obtain ⟨left, right, rfl, hleft, hright⟩ := h
  have hback : ∀ c ∈ right.reverse, isBlank c = true := by simpa using hright
  unfold trim
  rw [List.append_assoc, List.dropWhile_append_of_pos hleft, List.dropWhile_append]
  by_cases hempty : (core.dropWhile isBlank).isEmpty = true
  · rw [if_pos hempty, List.dropWhile_eq_nil_iff.mpr hright, List.isEmpty_iff.mp hempty]
  · rw [if_neg hempty, List.reverse_append, List.dropWhile_append_of_pos hback]

/-- A text is what is left of it by trimming, between blanks. -/
theorem padded_trim (text : List Char) : Padded (trim text) text := by
  have hblank (cs : List Char) : ∀ c ∈ cs.takeWhile isBlank, isBlank c = true :=
    List.all_eq_true.mp List.all_takeWhile
  refine ⟨text.takeWhile isBlank, ((text.dropWhile isBlank).reverse.takeWhile isBlank).reverse,
    ?_, hblank text, ?_⟩
  · rw [trim, List.append_assoc, ← List.reverse_append, List.takeWhile_append_dropWhile,
      List.reverse_reverse, List.takeWhile_append_dropWhile]
  · intro c hc
    exact hblank _ c (List.mem_reverse.mp hc)

/-- Trimming leaves what stands between the blanks. -/
theorem trim_eq_iff {text core : List Char} : trim text = core ↔ Trims text core := by
  constructor
  · rintro rfl
    have hfirst (cs : List Char) (c : Char) (hc : (cs.dropWhile isBlank).head? = some c) :
        isBlank c = false := by
      have hnot := List.head?_dropWhile_not isBlank cs
      rwa [hc] at hnot
    refine ⟨padded_trim text, fun c hc => hfirst text c ?_, fun c hc => ?_⟩
    · -- What is cut off behind leaves the first character in its place.
      have hfront : trim text <+: text.dropWhile isBlank := by
        rw [trim, ← List.reverse_suffix, List.reverse_reverse]
        exact List.dropWhile_suffix isBlank
      obtain ⟨back, hback⟩ := hfront
      rw [← hback, List.head?_append, hc, Option.some_or]
    · rw [trim, List.getLast?_reverse] at hc
      exact hfirst _ c hc
  · intro h
    rw [trim_of_padded h.padded, trim_eq_self h.head h.last]

/-- Nothing is left of a text by trimming exactly if it is blank. -/
theorem trim_eq_nil_iff {text : List Char} : trim text = [] ↔ ∀ c ∈ text, isBlank c = true := by
  rw [trim, List.reverse_eq_nil_iff, List.dropWhile_eq_nil_iff]
  constructor
  · intro h c hc
    rw [← List.takeWhile_append_dropWhile (p := isBlank) (l := text)] at hc
    rcases List.mem_append.mp hc with hc | hc
    · exact List.all_eq_true.mp List.all_takeWhile c hc
    · exact h c (List.mem_reverse.mpr hc)
  · intro h c hc
    exact h c ((List.dropWhile_suffix isBlank).mem (List.mem_reverse.mp hc))

/-! ## Pieces of a text with blanks around it -/

variable {isSeparator : Char → Bool}

/-- There is one more piece than there are separators. -/
theorem length_pieces (isSeparator : Char → Bool) (cs : List Char) :
    (pieces isSeparator cs).length = cs.countP isSeparator + 1 := by
  induction cs with
  | nil => rfl
  | cons c cs ih =>
    rw [pieces_cons]
    by_cases hc : isSeparator c = true
    · rw [if_pos hc, List.length_cons, ih, List.countP_cons_of_pos hc]
    · rw [if_neg hc, List.length_modifyHead, ih, List.countP_cons_of_neg hc]

/-- What stands behind a text without a separator belongs to its last piece. -/
theorem forall₂_pieces_append {word : List Char} (hword : ∀ c ∈ word, isSeparator c = false)
    (cs : List Char) :
    List.Forall₂ (fun piece piece' => piece' = piece ∨ piece' = piece ++ word)
      (pieces isSeparator cs) (pieces isSeparator (cs ++ word)) := by
  induction cs with
  | nil =>
    have hone : pieces isSeparator word = [word] := by
      rw [pieces_eq_splitOnP, List.splitOnP_eq_singleton hword]
    rw [List.nil_append, hone]
    exact .cons (.inr rfl) .nil
  | cons c cs ih =>
    rw [List.cons_append, pieces_cons, pieces_cons]
    by_cases hc : isSeparator c = true
    · rw [if_pos hc, if_pos hc]
      exact .cons (.inl rfl) ih
    · rw [if_neg hc, if_neg hc]
      generalize pieces isSeparator cs = parts at ih ⊢
      generalize pieces isSeparator (cs ++ word) = parts' at ih ⊢
      cases ih with
      | nil => exact .nil
      | cons hfirst hrest =>
        refine .cons ?_ hrest
        rcases hfirst with rfl | rfl
        · exact .inl rfl
        · exact .inr rfl

/-- Blanks around a text are blanks around its pieces, unless blanks separate these. -/
theorem map_trim_pieces_of_padded (hseparator : ∀ c, isBlank c = true → isSeparator c = false)
    {core text : List Char} (h : Padded core text) :
    (pieces isSeparator text).map trim = (pieces isSeparator core).map trim := by
  obtain ⟨left, right, rfl, hleft, hright⟩ := h
  have hfront : (pieces isSeparator (left ++ (core ++ right))).map trim =
      (pieces isSeparator (core ++ right)).map trim := by
    rw [pieces_append_of_forall fun c hc => hseparator c (hleft c hc)]
    cases pieces isSeparator (core ++ right) with
    | nil => rfl
    | cons first others =>
      rw [List.modifyHead_cons, List.map_cons, List.map_cons,
        trim_of_padded ⟨left, [], (List.append_nil _).symm, hleft, by simp⟩]
  have hback : List.Forall₂ (fun piece piece' => trim piece = trim piece')
      (pieces isSeparator core) (pieces isSeparator (core ++ right)) := by
    refine (forall₂_pieces_append (fun c hc => hseparator c (hright c hc)) core).imp ?_
    rintro piece piece' (rfl | rfl)
    · rfl
    · exact (trim_of_padded ⟨[], right, rfl, by simp, hright⟩).symm
  rw [List.append_assoc, hfront]
  rw [← List.forall₂_map_right_iff, ← List.forall₂_map_left_iff, List.forall₂_eq_eq_eq] at hback
  exact hback.symm

end Text

namespace Image

/-! ## Words -/

/-- A piece spells a word: it is a signed decimal of this value with blanks around it. -/
def Spells (piece : List Char) (w : Word) : Prop :=
  ∃ core, Text.Trims piece core ∧ Numeral.Denotes core w

/-- A piece is read as the word that it spells. -/
theorem word?_trim_iff {piece : List Char} {w : Word} :
    word? (Text.trim piece) = some w ↔ Spells piece w := by
  constructor
  · intro hword
    exact ⟨_, Text.trim_eq_iff.mp rfl, Numeral.word?_readDecimal_iff.mp hword⟩
  · rintro ⟨core, htrims, hdenotes⟩
    rw [Text.trim_eq_iff.mpr htrims]
    exact Numeral.word?_readDecimal_iff.mpr hdenotes

/-- No piece is found to be bad exactly when all are words. -/
theorem find?_eq_none_iff {pieces : List (List Char)} :
    pieces.zipIdx.find? (fun piece => (word? piece.1).isNone) = none ↔
      ∀ piece ∈ pieces, ∃ w, word? piece = some w := by
  rw [List.find?_eq_none]
  constructor
  · intro hnone piece hpiece
    obtain ⟨index, hindex⟩ := List.mem_iff_getElem?.mp hpiece
    have hword := hnone (piece, index) (List.mk_mem_zipIdx_iff_getElem?.mpr hindex)
    exact Option.ne_none_iff_exists'.mp (by simpa using hword)
  · rintro hgood ⟨piece, index⟩ hpiece
    obtain ⟨w, hw⟩ := hgood piece (List.fst_mem_of_mem_zipIdx hpiece)
    simp [hw]

/-- Pieces that all are words are read as these words. -/
theorem readWords_eq_ok_iff {pieces : List (List Char)} {image : List Word} :
    readWords pieces = .ok image ↔
      List.Forall₂ (fun piece w => word? piece = some w) pieces image := by
  rw [Outcome.forall₂_eq_some_iff, ← find?_eq_none_iff]
  unfold readWords
  cases pieces.zipIdx.find? (fun piece => (word? piece.1).isNone) with
  | none => simp
  | some bad => simp

/-- The first piece that is no word is reported. -/
private theorem readWords_append {front : List (List Char)} {piece : List Char}
    (hfront : ∀ good ∈ front, ∃ w, word? good = some w) (hpiece : word? piece = none)
    (back : List (List Char)) :
    readWords (front ++ piece :: back) =
      .error (.badWord front.length (String.ofList piece)) := by
  unfold readWords
  rw [List.zipIdx_append, List.find?_append, find?_eq_none_iff.mpr hfront, Option.none_or,
    List.zipIdx_cons, List.find?_cons_of_pos (by simp [hpiece]), Nat.zero_add]

/-- Pieces are never refused for being none. -/
private theorem readWords_ne_empty (pieces : List (List Char)) :
    readWords pieces ≠ .error .empty := by
  unfold readWords
  split
  · simp
  · simp

/-! ## Texts -/

/-- The pieces of a text are those between its commas. -/
theorem pieces_eq_splitOn (text : List Char) :
    Text.pieces (· == ',') text = text.splitOn ',' := by
  rw [Text.pieces_eq_splitOnP, ← List.splitOn_eq_splitOnP]

variable {text : List Char}

/-- A text of blanks is no image. -/
theorem parse_of_blank (hblank : ∀ c ∈ text, Text.isBlank c = true) :
    parse text = .error .empty := by
  unfold parse
  rw [Text.trim_eq_nil_iff.mpr hblank]
  rfl

/-- All other texts are read piece by piece. The pieces are those of the whole text, though it
is trimmed before. -/
theorem parse_of_not_blank (htext : ∃ c ∈ text, Text.isBlank c = false) :
    parse text = readWords ((text.splitOn ',').map Text.trim) := by
  have hne : (Text.trim text).isEmpty = false := by
    rw [List.isEmpty_eq_false_iff, ne_eq, Text.trim_eq_nil_iff]
    obtain ⟨c, hc, hkept⟩ := htext
    intro hblank
    rw [hblank c hc] at hkept
    cases hkept
  have hcomma (c : Char) (hc : Text.isBlank c = true) : (c == ',') = false := by
    rw [beq_eq_false_iff_ne]
    rintro rfl
    cases hc
  unfold parse
  simp only [hne, Bool.false_eq_true, if_false]
  rw [← Text.map_trim_pieces_of_padded hcomma (Text.padded_trim text), pieces_eq_splitOn]

/-- A text is read as an image exactly when each of its pieces spells a word of it. -/
theorem parse_eq_ok_iff (htext : ∃ c ∈ text, Text.isBlank c = false) {image : List Word} :
    parse text = .ok image ↔ List.Forall₂ Spells (text.splitOn ',') image := by
  rw [parse_of_not_blank htext, readWords_eq_ok_iff, List.forall₂_map_left_iff]
  simp only [word?_trim_iff]

/-- An image has one more word than its text has commas. -/
theorem length_of_parse {image : List Word} (hparse : parse text = .ok image) :
    image.length = text.count ',' + 1 := by
  have htext : ∃ c ∈ text, Text.isBlank c = false := by
    by_contra hblank
    rw [parse_of_blank (by simpa using hblank)] at hparse
    cases hparse
  rw [← ((parse_eq_ok_iff htext).mp hparse).length_eq, ← pieces_eq_splitOn, Text.length_pieces]
  rfl

/-- The first piece that spells no word is reported, without the blanks around it. -/
theorem parse_eq_error {piece : List Char} (htext : ∃ c ∈ text, Text.isBlank c = false)
    (hpiece : piece ∈ text.splitOn ',') (hbad : ∀ w, ¬ Spells piece w) :
    ∃ front piece back word, text.splitOn ',' = front ++ piece :: back ∧
      (∀ good ∈ front, ∃ w, Spells good w) ∧ (∀ w, ¬ Spells piece w) ∧
      Text.Trims piece word ∧ parse text = .error (.badWord front.length (String.ofList word)) := by
  rcases Outcome.defined_or_exists_first (fun piece => word? (Text.trim piece))
      (text.splitOn ',') with hgood | ⟨front, first, back, hsplit, hfront, hfirst⟩
  · obtain ⟨w, hw⟩ := hgood piece hpiece
    exact absurd (word?_trim_iff.mp hw) (hbad w)
  · refine ⟨front, first, back, Text.trim first, hsplit, ?_, ?_, Text.trim_eq_iff.mp rfl, ?_⟩
    · intro good hmem
      obtain ⟨w, hw⟩ := hfront good hmem
      exact ⟨w, word?_trim_iff.mp hw⟩
    · intro w hw
      rw [word?_trim_iff.mpr hw] at hfirst
      cases hfirst
    · have htrimmed : ∀ good ∈ front.map Text.trim, ∃ w, word? good = some w := by
        simpa using hfront
      rw [parse_of_not_blank htext, hsplit, List.map_append, List.map_cons,
        readWords_append htrimmed hfirst, List.length_map]

/-- Of a source with a line feed only what stands before it is read. -/
theorem read_of_line {line : List Char} (hline : '\n' ∉ line) (behind : List Char)
    (failure : Option String) :
    read ⟨String.ofList (line ++ '\n' :: behind), failure⟩ = parse line := by
  have hkeep : ∀ c ∈ line, (c != '\n') = true := by
    intro c hc
    rw [bne_iff_ne]
    rintro rfl
    exact hline hc
  have hspan : (line ++ '\n' :: behind).span (· != '\n') = (line, '\n' :: behind) := by
    rw [List.span_eq_takeWhile_dropWhile, List.takeWhile_append_of_pos hkeep,
      List.dropWhile_append_of_pos hkeep]
    simp
  unfold read Source.firstLine
  simp only [String.toList_ofList, hspan]

/-- The grammar of images. A text is refused as empty exactly when it has only blanks in it.
Any other text is an image exactly when each of its pieces between commas is a signed decimal
in range with blanks around it, and has these words in this order, one more than there are
commas. If there are pieces that are not, the first one is reported with its index and without
the blanks. Of a source with a line feed only what stands before the first one counts. -/
theorem parse_grammar (text : List Char) :
    (parse text = .error .empty ↔ ∀ c ∈ text, Text.isBlank c = true) ∧
    ((∃ c ∈ text, Text.isBlank c = false) →
      (∀ image, parse text = .ok image ↔ List.Forall₂ Spells (text.splitOn ',') image) ∧
      ((∃ piece ∈ text.splitOn ',', ∀ w, ¬ Spells piece w) →
        ∃ front piece back word, text.splitOn ',' = front ++ piece :: back ∧
          (∀ good ∈ front, ∃ w, Spells good w) ∧ (∀ w, ¬ Spells piece w) ∧
          Text.Trims piece word ∧
          parse text = .error (.badWord front.length (String.ofList word)))) ∧
    (∀ image, parse text = .ok image → image.length = text.count ',' + 1) ∧
    ∀ line behind failure, '\n' ∉ line →
      read ⟨String.ofList (line ++ '\n' :: behind), failure⟩ = parse line := by
  refine ⟨⟨?_, parse_of_blank⟩, fun htext => ⟨fun image => parse_eq_ok_iff htext, ?_⟩,
    fun image => length_of_parse, fun line behind failure hline => read_of_line hline _ _⟩
  · intro hempty
    by_contra hblank
    have htext : ∃ c ∈ text, Text.isBlank c = false := by simpa using hblank
    rw [parse_of_not_blank htext] at hempty
    exact readWords_ne_empty _ hempty
  · rintro ⟨piece, hpiece, hbad⟩
    exact parse_eq_error htext hpiece hbad

end Image

end TapeMachine
