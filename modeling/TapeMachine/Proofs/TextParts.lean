import TapeMachine.Source

/-!
# Parts of texts

Pieces, fields and lines take a text apart at separators. These lemmas say that they
give back the parts from which a text was put together.
-/

namespace TapeMachine

namespace Text

/-- What holds of the first code points holds of the characters with these. -/
theorem of_toNat_lt (P : Char → Prop) {bound : Nat} (h : ∀ n < bound, P (Char.ofNat n)) {c : Char}
    (hc : c.toNat < bound) : P c := by
  have hn := h c.toNat hc
  rwa [Char.ofNat_toNat] at hn

/-- The pieces of a text are what is left between its separators. -/
theorem pieces_eq_splitOnP (isSeparator : Char → Bool) (cs : List Char) :
    pieces isSeparator cs = cs.splitOnP isSeparator := by
  induction cs with
  | nil => rfl
  | cons c cs ih =>
    have hstep : pieces isSeparator (c :: cs) =
        addToPieces isSeparator c (pieces isSeparator cs) := rfl
    rw [hstep, ih, List.splitOnP_cons_eq_if_modifyHead]
    generalize hpieces : cs.splitOnP isSeparator = parts
    cases parts with
    | nil => exact absurd hpieces (List.splitOnP_ne_nil _ _)
    | cons first others => rfl

variable {isSeparator : Char → Bool}

/-- The first piece of a text is its longest front without a separator. -/
theorem head?_pieces (cs : List Char) :
    (pieces isSeparator cs).head? = some (cs.takeWhile (!isSeparator ·)) := by
  rw [pieces_eq_splitOnP]
  induction cs with
  | nil => rfl
  | cons c cs ih =>
    rw [List.splitOnP_cons_eq_if_modifyHead]
    by_cases hc : isSeparator c = true
    · simp [hc]
    · simp [hc, List.head?_modifyHead, ih]

/-- No piece of a text has a separator in it. -/
theorem forall_mem_of_mem_pieces {cs piece : List Char} (hpiece : piece ∈ pieces isSeparator cs) :
    ∀ c ∈ piece, isSeparator c = false := by
  rw [pieces_eq_splitOnP] at hpiece
  induction cs generalizing piece with
  | nil =>
    obtain rfl := List.mem_singleton.mp hpiece
    simp
  | cons c cs ih =>
    rw [List.splitOnP_cons_eq_if_modifyHead] at hpiece
    generalize cs.splitOnP isSeparator = parts at hpiece ih
    by_cases hc : isSeparator c = true
    · rw [if_pos hc] at hpiece
      rcases List.mem_cons.mp hpiece with rfl | hpiece
      · simp
      · exact ih hpiece
    · rw [if_neg hc] at hpiece
      cases parts with
      | nil => cases hpiece
      | cons first others =>
        rcases List.mem_cons.mp hpiece with rfl | hpiece
        · exact List.forall_mem_cons.mpr ⟨by simpa using hc, ih List.mem_cons_self⟩
        · exact ih (List.mem_cons_of_mem first hpiece)

/-- A field is not empty, and has no separator in it. -/
theorem mem_fieldsBy {cs field : List Char} (hfield : field ∈ fieldsBy isSeparator cs) :
    field ≠ [] ∧ ∀ c ∈ field, isSeparator c = false := by
  obtain ⟨hpiece, hne⟩ := List.mem_filter.mp hfield
  exact ⟨by simpa using hne, forall_mem_of_mem_pieces hpiece⟩

/-- The fields of a text with a separator are those before it and those behind it. -/
theorem fieldsBy_append_cons {s : Char} (hs : isSeparator s = true) (before behind : List Char) :
    fieldsBy isSeparator (before ++ s :: behind) =
      fieldsBy isSeparator before ++ fieldsBy isSeparator behind := by
  unfold fieldsBy
  simp only [pieces_eq_splitOnP]
  rw [List.splitOnP_append_cons _ _ hs, List.filter_append]

/-- An empty text has no fields. -/
@[simp]
theorem fieldsBy_nil : fieldsBy isSeparator [] = [] := rfl

/-- Separators alone have no fields between them. -/
theorem fieldsBy_append_gap {gap : List Char} (hne : gap ≠ [])
    (hgap : ∀ c ∈ gap, isSeparator c = true) (before behind : List Char) :
    fieldsBy isSeparator (before ++ (gap ++ behind)) =
      fieldsBy isSeparator before ++ fieldsBy isSeparator behind := by
  induction gap generalizing before with
  | nil => exact absurd rfl hne
  | cons s gap ih =>
    obtain ⟨hs, hrest⟩ := List.forall_mem_cons.mp hgap
    rw [List.cons_append, fieldsBy_append_cons hs]
    by_cases hgap' : gap = []
    · rw [hgap', List.nil_append]
    · have hbehind := ih hgap' hrest []
      rw [List.nil_append, fieldsBy_nil, List.nil_append] at hbehind
      rw [hbehind]

/-- A word without separators is a field. -/
theorem fieldsBy_word {word : List Char} (hne : word ≠ [])
    (hword : ∀ c ∈ word, isSeparator c = false) : fieldsBy isSeparator word = [word] := by
  unfold fieldsBy
  rw [pieces_eq_splitOnP, List.splitOnP_eq_singleton hword]
  simpa using hne

/-- Words that are joined by a separator are the pieces of the text. -/
theorem pieces_intercalate {s : Char} {words : List (List Char)} (hne : words ≠ [])
    (hwords : ∀ word ∈ words, s ∉ word) : pieces (· == s) ([s].intercalate words) = words := by
  rw [pieces_eq_splitOnP, ← List.splitOn_eq_splitOnP, List.splitOn_intercalate s hwords hne]

/-- Words that are joined by a separator are the fields of the text. -/
theorem fieldsBy_intercalate {s : Char} {words : List (List Char)}
    (hwords : ∀ word ∈ words, word ≠ [] ∧ s ∉ word) :
    fieldsBy (· == s) ([s].intercalate words) = words := by
  by_cases hnil : words = []
  · rw [hnil]
    rfl
  · have hpieces := pieces_intercalate hnil fun word hword => (hwords word hword).2
    rw [fieldsBy, hpieces, List.filter_eq_self]
    intro word hword
    simpa using (hwords word hword).1

/-- The first field of a text that does not begin with a separator reaches to the first one. -/
theorem head?_fieldsBy_cons {c : Char} (hc : isSeparator c = false) (cs : List Char) :
    (fieldsBy isSeparator (c :: cs)).head? = some ((c :: cs).takeWhile (!isSeparator ·)) := by
  have hhead := @head?_pieces isSeparator (c :: cs)
  unfold fieldsBy
  generalize pieces isSeparator (c :: cs) = parts at hhead
  cases parts with
  | nil => cases hhead
  | cons first others =>
    have hfirst : first = (c :: cs).takeWhile (!isSeparator ·) := Option.some.inj hhead
    rw [List.filter_cons_of_pos]
    · exact hhead
    · rw [hfirst, List.takeWhile_cons_of_pos (by simp [hc])]
      rfl

/-- The first field of a text stands behind the separators at its front. -/
theorem head?_fieldsBy_iff {cs word : List Char} :
    (fieldsBy isSeparator cs).head? = some word ↔
      word ≠ [] ∧ (cs.dropWhile isSeparator).takeWhile (!isSeparator ·) = word := by
  induction cs with
  | nil => simp
  | cons c cs ih =>
    by_cases hc : isSeparator c = true
    · have hskip : fieldsBy isSeparator (c :: cs) = fieldsBy isSeparator cs :=
        fieldsBy_append_cons hc [] cs
      rw [hskip, List.dropWhile_cons_of_pos hc, ih]
    · have hkeep : isSeparator c = false := by simpa using hc
      rw [head?_fieldsBy_cons hkeep, List.dropWhile_cons_of_neg hc, Option.some.injEq]
      refine ⟨fun h => ⟨?_, h⟩, And.right⟩
      rw [← h, List.takeWhile_cons_of_pos (by simp [hkeep])]
      exact List.cons_ne_nil _ _

/-- The first field of a text that does not begin with a separator is a front of it. -/
theorem fieldsBy_eq_cons {c : Char} (hc : isSeparator c = false) (cs : List Char) :
    ∃ first others, fieldsBy isSeparator (c :: cs) = first :: others ∧ first <+: c :: cs := by
  obtain ⟨others, hfields⟩ := List.head?_eq_some_iff.mp (head?_fieldsBy_cons hc cs)
  exact ⟨_, others, hfields, List.takeWhile_prefix _⟩

/-- What stands in front of a text without a separator belongs to its first piece. -/
theorem pieces_append_of_forall {word : List Char} (hword : ∀ c ∈ word, isSeparator c = false)
    (cs : List Char) :
    pieces isSeparator (word ++ cs) = (pieces isSeparator cs).modifyHead (word ++ ·) := by
  simp only [pieces_eq_splitOnP]
  induction word with
  | nil =>
    rw [List.nil_append]
    cases cs.splitOnP isSeparator with
    | nil => rfl
    | cons first others => rfl
  | cons c word ih =>
    obtain ⟨hc, hword⟩ := List.forall_mem_cons.mp hword
    rw [List.cons_append, List.splitOnP_cons_eq_if_modifyHead, if_neg (by simp [hc]), ih hword,
      List.modifyHead_modifyHead]
    rfl

/-- The pieces of a text from its first character on. -/
theorem pieces_cons (c : Char) (cs : List Char) :
    pieces isSeparator (c :: cs) =
      if isSeparator c = true then [] :: pieces isSeparator cs
      else (pieces isSeparator cs).modifyHead (c :: ·) := by
  simp only [pieces_eq_splitOnP, List.splitOnP_cons_eq_if_modifyHead]

/-- What stands in a text without a separator stands in one of its fields. -/
theorem exists_mem_fieldsBy_of_subtext {part cs : List Char} (hne : part ≠ [])
    (hpart : ∀ c ∈ part, isSeparator c = false) (hsubtext : part <:+: cs) :
    ∃ field ∈ fieldsBy isSeparator cs, part <:+: field := by
  obtain ⟨before, behind, rfl⟩ := hsubtext
  have hpieces : ∃ piece ∈ pieces isSeparator (before ++ part ++ behind), part <:+: piece := by
    rw [List.append_assoc]
    induction before with
    | nil =>
      rw [List.nil_append, pieces_append_of_forall hpart]
      cases hbehind : pieces isSeparator behind with
      | nil =>
        rw [pieces_eq_splitOnP] at hbehind
        exact absurd hbehind (List.splitOnP_ne_nil _ _)
      | cons first others =>
        exact ⟨part ++ first, List.mem_cons_self, (List.prefix_append part first).isInfix⟩
    | cons c before ih =>
      obtain ⟨piece, hpiece, hin⟩ := ih
      rw [List.cons_append, pieces_cons]
      by_cases hc : isSeparator c = true
      · rw [if_pos hc]
        exact ⟨piece, List.mem_cons_of_mem _ hpiece, hin⟩
      · rw [if_neg hc]
        generalize pieces isSeparator (before ++ (part ++ behind)) = all at hpiece
        cases all with
        | nil => cases hpiece
        | cons first others =>
          rcases List.mem_cons.mp hpiece with rfl | hpiece
          · exact ⟨c :: piece, List.mem_cons_self, hin.trans (List.suffix_cons c piece).isInfix⟩
          · exact ⟨piece, List.mem_cons_of_mem _ hpiece, hin⟩
  obtain ⟨piece, hpiece, hin⟩ := hpieces
  refine ⟨piece, List.mem_filter.mpr ⟨hpiece, ?_⟩, hin⟩
  have hpiece : piece ≠ [] := by
    rintro rfl
    exact hne (List.infix_nil.mp hin)
  simpa using hpiece

/-- Where separators stay and all else is replaced by words, the pieces are replaced one by
one. -/
theorem pieces_flatMap {f : Char → List Char} (hseparator : ∀ c, isSeparator c = true → f c = [c])
    (hother : ∀ c, isSeparator c = false → ∀ d ∈ f c, isSeparator d = false) (cs : List Char) :
    pieces isSeparator (cs.flatMap f) = (pieces isSeparator cs).map (·.flatMap f) := by
  induction cs with
  | nil => rfl
  | cons c cs ih =>
    rw [List.flatMap_cons, pieces_cons]
    by_cases hc : isSeparator c = true
    · rw [if_pos hc, hseparator c hc, List.singleton_append, List.map_cons, ← ih]
      simp only [pieces_eq_splitOnP, List.splitOnP_cons_eq_if_modifyHead, if_pos hc,
        List.flatMap_nil]
    · rw [if_neg hc, pieces_append_of_forall (hother c (by simpa using hc)), ih]
      cases pieces isSeparator cs with
      | nil => rfl
      | cons first others => simp

/-- Fields can be replaced character by character, if separators stay and nothing else becomes
one. -/
theorem fieldsBy_flatMap {f : Char → List Char}
    (hseparator : ∀ c, isSeparator c = true → f c = [c])
    (hother : ∀ c, isSeparator c = false → f c ≠ [] ∧ ∀ d ∈ f c, isSeparator d = false)
    (cs : List Char) :
    fieldsBy isSeparator (cs.flatMap f) = (fieldsBy isSeparator cs).map (·.flatMap f) := by
  unfold fieldsBy
  rw [pieces_flatMap hseparator (fun c hc => (hother c hc).2), List.filter_map]
  congr 1
  apply List.filter_congr
  intro piece hpiece
  cases piece with
  | nil => rfl
  | cons c piece =>
    have hc := forall_mem_of_mem_pieces hpiece c List.mem_cons_self
    simp [(hother c hc).1]

/-- A text that neither begins nor ends with a blank is trimmed already. -/
theorem trim_eq_self {cs : List Char} (hhead : ∀ c, cs.head? = some c → isBlank c = false)
    (hlast : ∀ c, cs.getLast? = some c → isBlank c = false) : trim cs = cs := by
  have hdrop {ds : List Char} (h : ∀ c, ds.head? = some c → isBlank c = false) :
      ds.dropWhile isBlank = ds := by
    cases ds with
    | nil => rfl
    | cons d ds => rw [List.dropWhile_cons_of_neg (by simp [h d rfl])]
  unfold trim
  rw [hdrop hhead, hdrop (by simpa using hlast), List.reverse_reverse]

end Text

namespace Source

/-- Lines that are joined are read one by one, if the last one is not empty. -/
theorem rawLines_intercalate {lines : List (List Char)} (hlines : ∀ line ∈ lines, '\n' ∉ line)
    (hlast : lines.getLast? ≠ some []) : rawLines (['\n'].intercalate lines) = lines := by
  unfold rawLines
  by_cases hnil : lines = []
  · rw [hnil]
    rfl
  · rw [Text.pieces_intercalate hnil hlines]
    exact if_neg hlast

/-- Lines that end with line feeds are read one by one. -/
theorem rawLines_flatMap {lines : List (List Char)} (hlines : ∀ line ∈ lines, '\n' ∉ line) :
    rawLines (lines.flatMap (· ++ ['\n'])) = lines := by
  have hpieces : (lines.flatMap (· ++ ['\n'])).splitOn '\n' = lines ++ [[]] := by
    induction lines with
    | nil => rfl
    | cons line lines ih =>
      obtain ⟨hline, hrest⟩ := List.forall_mem_cons.mp hlines
      rw [List.flatMap_cons, List.append_assoc, List.singleton_append,
        List.splitOn_append_cons_self_of_not_mem hline, ih hrest, List.cons_append]
  unfold rawLines
  rw [Text.pieces_eq_splitOnP, ← List.splitOn_eq_splitOnP, hpieces]
  simp

end Source

end TapeMachine
