import Mathlib.Data.List.TakeDrop
import TapeMachine.Proofs.PlainLines
import TapeMachine.Proofs.SavedImage

/-!
# Expressions on a line

A line is text in which expressions stand between `$(` and `)`. The character literals of the
text are replaced first, and this leaves the expressions alone. Then each expression gives way
to the decimal numeral of its value, whatever stands around it, and the last one that has no
value decides the error of the line.
-/

namespace TapeMachine

namespace Literal

/-! ## Character literals -/

/-- What is done stays in front. -/
theorem charactersFrom_append (done before cs : List Char) :
    charactersFrom (done ++ before) cs = before.reverse ++ charactersFrom done cs := by
  induction done, cs using charactersFrom.induct with
  | case1 done => simp [charactersFrom]
  | case2 done rest ih => simpa [charactersFrom] using ih
  | case3 done c rest hc n hn ih => simpa [charactersFrom, hn] using ih
  | case4 done c rest hc hn ih => simpa [charactersFrom, hn] using ih
  | case5 done rest ih => simpa [charactersFrom] using ih
  | case6 done c rest hslash hquote n hn ih => simpa [charactersFrom, hn] using ih
  | case7 done c rest hslash hquote hn ih => simpa [charactersFrom, hn] using ih
  | case8 done c rest h₁ h₂ h₃ h₄ ih =>
    simpa [charactersFrom.eq_6 _ c rest h₁ h₂ h₃ h₄] using ih

/-- A quote near the front of two texts stands in the first one, if there is none near the
front of the second. -/
theorem exists_eq_append_quote (before : List Char) {front rest behind : List Char}
    (hrest : '\'' ∉ rest.take 3) (hbefore : before.length ≤ 2)
    (h : front ++ rest = before ++ '\'' :: behind) : ∃ more, front = before ++ '\'' :: more := by
  have hnear (between : List Char) (hlength : between.length ≤ 2)
      (hquote : rest = between ++ '\'' :: behind) : False := by
    have hshort : (between ++ ['\'']).length ≤ 3 := by
      rw [List.length_append, List.length_singleton]
      omega
    have hfront : between ++ ['\''] <+: rest.take 3 :=
      List.prefix_take_iff.mpr ⟨⟨behind, by simp [hquote]⟩, hshort⟩
    exact hrest (hfront.mem (by simp))
  rcases List.append_eq_append_iff.mp h with ⟨between, rfl, hrest'⟩ | ⟨between, rfl, hbehind⟩
  · rw [List.length_append] at hbefore
    exact (hnear between (by omega) hrest').elim
  · cases between with
    | nil => exact (hnear [] (by decide) hbehind.symm).elim
    | cons c between =>
      obtain ⟨rfl, _⟩ := List.cons.inj hbehind
      exact ⟨between, rfl⟩

/-- No character literal reaches into a text that has no quote near its front. -/
theorem characters_append {rest : List Char} (hrest : '\'' ∉ rest.take 3) (front : List Char) :
    characters (front ++ rest) = characters front ++ characters rest := by
  have hfrom (done : List Char) :
      charactersFrom done (front ++ rest) = charactersFrom done front ++ characters rest := by
    induction done, front using charactersFrom.induct with
    | case1 done => simpa [charactersFrom, characters] using charactersFrom_append [] done rest
    | case2 done front ih => simpa [charactersFrom] using ih
    | case3 done c front hc n hn ih => simpa [charactersFrom, hn] using ih
    | case4 done c front hc hn ih => simpa [charactersFrom, hn] using ih
    | case5 done front ih => simpa [charactersFrom] using ih
    | case6 done c front hslash hquote n hn ih => simpa [charactersFrom, hn] using ih
    | case7 done c front hslash hquote hn ih => simpa [charactersFrom, hn] using ih
    | case8 done c front h₁ h₂ h₃ h₄ ih =>
      -- A quote that starts no literal in the front starts none with the rest behind it.
      rw [List.cons_append, charactersFrom.eq_6 _ c front h₁ h₂ h₃ h₄, charactersFrom.eq_6, ih]
      · intro behind hc h
        obtain ⟨more, hmore⟩ := exists_eq_append_quote ['\\'] hrest (by simp) h
        exact h₁ more hc hmore
      · intro d behind hc h
        obtain ⟨more, hmore⟩ := exists_eq_append_quote ['\\', d] hrest (by simp) h
        exact h₂ d more hc hmore
      · intro behind hc h
        obtain ⟨more, hmore⟩ := exists_eq_append_quote [] hrest (by simp) h
        exact h₃ more hc hmore
      · intro d behind hc h
        obtain ⟨more, hmore⟩ := exists_eq_append_quote [d] hrest (by simp) h
        exact h₄ d more hc hmore
  exact hfrom []

/-- A text without quotes is left as it is. -/
theorem characters_append_of_not_mem {cs : List Char} (hcs : '\'' ∉ cs) (rest : List Char) :
    characters (cs ++ rest) = cs ++ characters rest := by
  induction cs with
  | nil => rfl
  | cons c cs ih =>
    obtain ⟨hc, hcs⟩ := not_or.mp (mt List.mem_cons.mpr hcs)
    have hstep : charactersFrom [] (c :: (cs ++ rest)) = charactersFrom ([] ++ [c]) (cs ++ rest) :=
      charactersFrom.eq_6 [] c _ (fun _ h => absurd h.symm hc) (fun _ _ h => absurd h.symm hc)
        (fun _ h => absurd h.symm hc) (fun _ _ h => absurd h.symm hc)
    rw [charactersFrom_append] at hstep
    exact hstep.trans (congrArg (c :: ·) (ih hcs))

/-- A code is written in digits. -/
theorem isDigit_of_mem_reversedCode {c : Char} {n : Nat} (hc : c ∈ reversedCode n) :
    c.isDigit = true :=
  Nat.isDigit_of_mem_toDigits (by decide) (by decide) (List.mem_reverse.mp hc)

/-- What characters there can be behind the replacement of literals. -/
private theorem mem_of_mem_charactersFrom {c : Char} {done cs : List Char}
    (hc : c ∈ charactersFrom done cs) : c ∈ done ∨ c ∈ cs ∨ c.isDigit = true := by
  induction done, cs using charactersFrom.induct with
  | case1 done => exact .inl (by simpa [charactersFrom] using hc)
  | case2 done rest ih => grind [charactersFrom]
  | case3 done d rest hd n hn ih => grind [charactersFrom, isDigit_of_mem_reversedCode]
  | case4 done d rest hd hn ih => grind [charactersFrom]
  | case5 done rest ih => grind [charactersFrom]
  | case6 done d rest hslash hquote n hn ih => grind [charactersFrom, isDigit_of_mem_reversedCode]
  | case7 done d rest hslash hquote hn ih => grind [charactersFrom]
  | case8 done d rest h₁ h₂ h₃ h₄ ih =>
    rw [charactersFrom.eq_6 _ d rest h₁ h₂ h₃ h₄] at hc
    grind

/-- Only digits take the place of character literals. -/
theorem mem_of_mem_characters {c : Char} {cs : List Char} (hc : c ∈ characters cs) :
    c ∈ cs ∨ c.isDigit = true :=
  (mem_of_mem_charactersFrom hc).resolve_left List.not_mem_nil

/-! ## Spliced values -/

variable {value : List Char → Except AssemblyError Word}

/-- A text with values in place of its expressions, and the error of the last one that has
none. -/
def spliced (value : List Char → Except AssemblyError Word) (cs : List Char) :
    List Char × Option AssemblyError :=
  let pieces := Text.pieces (· == '$') cs
  (pieces.headD [] ++ (expressionsIn value pieces.tail).1, (expressionsIn value pieces.tail).2)

/-- No character of the text equals one that is not in it. -/
theorem beq_of_not_mem {d : Char} {cs : List Char} (hcs : d ∉ cs) :
    ∀ c ∈ cs, (c == d) = false := by
  intro c hc
  have hne : c ≠ d := fun h => hcs (h ▸ hc)
  simpa using hne

/-- Every character of the text differs from one that is not in it. -/
theorem bne_of_not_mem {d : Char} {cs : List Char} (hcs : d ∉ cs) : ∀ c ∈ cs, (c != d) = true := by
  intro c hc
  rw [bne, beq_of_not_mem hcs c hc]
  rfl

/-- A text has a first piece. -/
theorem exists_pieces_eq_cons (cs : List Char) :
    ∃ first others, Text.pieces (· == '$') cs = first :: others := by
  rw [Text.pieces_eq_splitOnP]
  exact List.exists_cons_of_ne_nil (List.splitOnP_ne_nil _ _)

/-- Where no expression fails, the text is spliced. -/
private theorem expressions_eq_ok {cs : List Char} (h : (spliced value cs).2 = none) :
    expressions value cs = .ok (spliced value cs).1 := by
  obtain ⟨first, others, hpieces⟩ := exists_pieces_eq_cons cs
  unfold spliced at h ⊢
  unfold expressions
  rw [hpieces] at h ⊢
  generalize hothers : expressionsIn value others = outcome
  obtain ⟨rest, error⟩ := outcome
  simp only [List.tail_cons, hothers] at h
  subst h
  simp [hothers]

/-- Where an expression fails, so does the line. -/
theorem expressions_eq_error {cs : List Char} {e : AssemblyError}
    (h : (spliced value cs).2 = some e) : expressions value cs = .error e := by
  obtain ⟨first, others, hpieces⟩ := exists_pieces_eq_cons cs
  unfold spliced at h
  unfold expressions
  rw [hpieces] at h ⊢
  generalize hothers : expressionsIn value others = outcome
  obtain ⟨rest, error⟩ := outcome
  simp only [List.tail_cons, hothers] at h
  subst h
  simp [hothers]

/-- The pieces are spliced one after the other, and the last failure counts. -/
private theorem expressionsIn_append (xs ys : List (List Char)) :
    expressionsIn value (xs ++ ys) =
      ((expressionsIn value xs).1 ++ (expressionsIn value ys).1,
        (expressionsIn value ys).2.or (expressionsIn value xs).2) := by
  induction xs with
  | nil => simp [expressionsIn]
  | cons piece xs ih =>
    rw [List.cons_append, expressionsIn, expressionsIn, ih]
    cases bracketed? piece with
    | none => simp
    | some found =>
      obtain ⟨expr, behind⟩ := found
      dsimp only
      cases value expr with
      | ok w => simp
      | error e => cases (expressionsIn value ys).2 <;> simp

/-- An expression reaches to its closing bracket. -/
theorem bracketed?_expr (expr : List Char) {text : List Char} (hclose : ')' ∉ text) :
    bracketed? ('(' :: (expr ++ ')' :: text)) = some (expr, text) := by
  have hall := bne_of_not_mem (mt List.mem_reverse.mp hclose)
  have hspan : (expr ++ ')' :: text).reverse.span (· != ')') =
      (text.reverse, ')' :: expr.reverse) := by
    rw [List.span_eq_takeWhile_dropWhile]
    simp [List.takeWhile_append_of_pos hall, List.dropWhile_append_of_pos hall]
  unfold bracketed?
  simp only [hspan]
  simp

/-- What stands between parentheses, and what follows them. -/
theorem eq_of_bracketed? {piece expr text : List Char} (h : bracketed? piece = some (expr, text)) :
    piece = '(' :: (expr ++ ')' :: text) ∧ ')' ∉ text := by
  unfold bracketed? at h
  split at h
  · next cs =>
    by_cases hclose : ')' ∈ cs
    · obtain ⟨behind, before, hcs, hbehind⟩ :=
        List.eq_append_cons_of_mem (List.mem_reverse.mpr hclose)
      have hsplit : cs = before.reverse ++ ')' :: behind.reverse := by
        simpa using congrArg List.reverse hcs
      have hnone : ')' ∉ behind.reverse := by simpa using hbehind
      have hfound : bracketed? ('(' :: cs) = some (expr, text) := h
      rw [hsplit, bracketed?_expr _ hnone] at hfound
      obtain ⟨rfl, rfl⟩ := Prod.mk.inj (Option.some.inj hfound)
      exact ⟨congrArg ('(' :: ·) hsplit, hnone⟩
    · have hrest : cs.reverse.dropWhile (· != ')') = [] := by
        rw [List.dropWhile_eq_nil_iff]
        exact bne_of_not_mem (mt List.mem_reverse.mp hclose)
      simp only [List.span_eq_takeWhile_dropWhile, hrest] at h
      cases h
  · cases h

/-- Text without a closing bracket does not change what is bracketed in front of it. -/
theorem bracketed?_append {text : List Char} (hclose : ')' ∉ text) (piece : List Char) :
    bracketed? (piece ++ text) =
      (bracketed? piece).map fun found => (found.1, found.2 ++ text) := by
  cases hpiece : bracketed? piece with
  | some found =>
    obtain ⟨expr, behind⟩ := found
    obtain ⟨rfl, hbehind⟩ := eq_of_bracketed? hpiece
    have hnone : ')' ∉ behind ++ text := by simp [hbehind, hclose]
    simpa using bracketed?_expr expr hnone
  | none =>
    cases hwhole : bracketed? (piece ++ text) with
    | none => rfl
    | some found =>
      obtain ⟨expr, behind⟩ := found
      obtain ⟨heq, hbehind⟩ := eq_of_bracketed? hwhole
      -- The closing bracket stands in the piece, so the expression does.
      rcases List.append_eq_append_iff.mp (heq.trans (List.cons_append).symm) with
        ⟨between, _, htext⟩ | ⟨between, rfl, hrest⟩
      · exact absurd (by simp [htext]) hclose
      · cases between with
        | nil => exact absurd (by rw [List.nil_append] at hrest; simp [← hrest]) hclose
        | cons c between =>
          obtain ⟨rfl, rfl⟩ := List.cons.inj hrest
          have hnone : ')' ∉ between := fun h => hbehind (List.mem_append_left text h)
          rw [List.cons_append, bracketed?_expr expr hnone] at hpiece
          cases hpiece

/-- A text without dollar signs is one piece. -/
theorem pieces_of_not_mem {cs : List Char} (hcs : '$' ∉ cs) : Text.pieces (· == '$') cs = [cs] := by
  rw [Text.pieces_eq_splitOnP, List.splitOnP_eq_singleton (beq_of_not_mem hcs)]

/-- A text without dollar signs is left as it is. -/
theorem spliced_of_not_mem {cs : List Char} (hcs : '$' ∉ cs) : spliced value cs = (cs, none) := by
  unfold spliced
  rw [pieces_of_not_mem hcs]
  simp [expressionsIn]

/-- What stands behind a dollar sign is spliced by itself. -/
theorem spliced_append_dollar (front cs : List Char) :
    spliced value (front ++ '$' :: cs) =
      ((spliced value front).1 ++ (expressionsIn value (Text.pieces (· == '$') cs)).1,
        (expressionsIn value (Text.pieces (· == '$') cs)).2.or (spliced value front).2) := by
  have hpieces : Text.pieces (· == '$') (front ++ '$' :: cs) =
      Text.pieces (· == '$') front ++ Text.pieces (· == '$') cs := by
    simp only [Text.pieces_eq_splitOnP]
    exact List.splitOnP_append_cons _ _ (by decide)
  obtain ⟨first, others, hfront⟩ := exists_pieces_eq_cons front
  unfold spliced
  simp only [hpieces, hfront, List.cons_append, List.headD_cons, List.tail_cons,
    expressionsIn_append, List.append_assoc]

/-- Text without brackets and dollar signs stays behind what is spliced. -/
theorem spliced_append_text {text : List Char} (hdollar : '$' ∉ text) (hclose : ')' ∉ text)
    (cs : List Char) :
    spliced value (cs ++ text) = ((spliced value cs).1 ++ text, (spliced value cs).2) := by
  by_cases hcs : '$' ∈ cs
  · -- The text belongs to the piece behind the last dollar sign.
    obtain ⟨behind, before, hsplit, hbehind⟩ :=
      List.eq_append_cons_of_mem (List.mem_reverse.mpr hcs)
    obtain rfl : cs = before.reverse ++ '$' :: behind.reverse := by
      simpa using congrArg List.reverse hsplit
    have hpiece : '$' ∉ behind.reverse := by simpa using hbehind
    have hwhole : '$' ∉ behind.reverse ++ text := by simp [hbehind, hdollar]
    rw [List.append_assoc, List.cons_append, spliced_append_dollar, spliced_append_dollar,
      pieces_of_not_mem hpiece, pieces_of_not_mem hwhole, expressionsIn, expressionsIn,
      bracketed?_append hclose]
    cases hfound : bracketed? behind.reverse with
    | none => simp [expressionsIn, hfound]
    | some found =>
      cases hword : value found.1 with
      | ok w => simp [expressionsIn, hfound, hword]
      | error e => simp [expressionsIn, hfound, hword]
  · have hwhole : '$' ∉ cs ++ text := by simp [hcs, hdollar]
    rw [spliced_of_not_mem hcs, spliced_of_not_mem hwhole]

/-- Plain text stays behind what is spliced. -/
theorem spliced_characters_append {text : List Char}
    (htext : ∀ c ∈ text, c ≠ '$' ∧ c ≠ ')' ∧ c ≠ '\'') (cs : List Char) :
    spliced value (characters (cs ++ text)) =
      ((spliced value (characters cs)).1 ++ text, (spliced value (characters cs)).2) := by
  have hquote : '\'' ∉ text := fun h => (htext _ h).2.2 rfl
  rw [characters_append fun h => hquote (List.mem_of_mem_take h), characters_of_not_mem hquote,
    spliced_append_text (fun h => (htext _ h).1 rfl) fun h => (htext _ h).2.1 rfl]

/-- A character that starts nothing stays in front of what is spliced. -/
theorem spliced_cons {c : Char} (hc : c ≠ '$') (cs : List Char) :
    spliced value (c :: cs) = (c :: (spliced value cs).1, (spliced value cs).2) := by
  obtain ⟨first, others, hpieces⟩ := exists_pieces_eq_cons cs
  unfold spliced
  rw [Text.pieces_cons, if_neg (by simpa using hc), hpieces]
  rfl

variable {expr cs : List Char}

/-- The pieces of what follows a dollar sign, if it is an expression. -/
theorem pieces_expr (hexpr : '$' ∉ expr) (hcs : ')' ∉ cs.takeWhile (· != '$')) :
    ∃ first others, Text.pieces (· == '$') cs = first :: others ∧
      Text.pieces (· == '$') ('(' :: (expr ++ ')' :: cs)) =
        ('(' :: (expr ++ ')' :: first)) :: others ∧ ')' ∉ first := by
  obtain ⟨first, others, hpieces⟩ := exists_pieces_eq_cons cs
  have hfirst : first = cs.takeWhile (· != '$') := by
    have hhead := @Text.head?_pieces (· == '$') cs
    rw [hpieces] at hhead
    exact Option.some.inj hhead
  have hfront : '$' ∉ '(' :: (expr ++ [')']) := by simp [hexpr]
  refine ⟨first, others, hpieces, ?_, hfirst ▸ hcs⟩
  have happend := Text.pieces_append_of_forall (beq_of_not_mem hfront) cs
  rw [hpieces] at happend
  simpa using happend

/-- An expression with a value gives way to its numeral. -/
theorem spliced_expr (hexpr : '$' ∉ expr) (hcs : ')' ∉ cs.takeWhile (· != '$')) {w : Word}
    (hw : value expr = .ok w) (front : List Char) :
    spliced value (front ++ '$' :: '(' :: (expr ++ ')' :: cs)) =
      ((spliced value front).1 ++ ((Numeral.ofWord w).toList ++ (spliced value cs).1),
        (spliced value cs).2.or (spliced value front).2) := by
  obtain ⟨first, others, hpieces, hwhole, hfirst⟩ := pieces_expr hexpr hcs
  rw [spliced_append_dollar, hwhole, expressionsIn, bracketed?_expr expr hfirst]
  unfold spliced
  simp [hw, hpieces]

/-- An expression without a value decides the error, unless one behind it has none either. -/
theorem spliced_expr_error (hexpr : '$' ∉ expr) (hcs : ')' ∉ cs.takeWhile (· != '$'))
    {e : AssemblyError} (herror : value expr = .error e) (front : List Char) :
    (spliced value (front ++ '$' :: '(' :: (expr ++ ')' :: cs))).2 =
      some ((spliced value cs).2.getD e) := by
  obtain ⟨first, others, hpieces, hwhole, hfirst⟩ := pieces_expr hexpr hcs
  rw [spliced_append_dollar, hwhole, expressionsIn, bracketed?_expr expr hfirst]
  unfold spliced
  simp [herror, hpieces]

/-! ## Lines with expressions -/

/-- An expression on a line, with the text behind it up to the next one. -/
structure Formula where
  expr : List Char
  behind : List Char
  expr_dollar : '$' ∉ expr := by decide
  expr_quote : '\'' ∉ expr := by decide
  behind_open : '(' ∉ behind := by decide
  behind_close : ')' ∉ behind := by decide

/-- An expression with its dollar sign and parentheses, and the text behind it. -/
def Formula.text (f : Formula) : List Char := '$' :: '(' :: (f.expr ++ ')' :: f.behind)

/-- A line that begins with a text and goes on with expressions. -/
def lineText (front : List Char) (fs : List Formula) : List Char := front ++ fs.flatMap Formula.text

/-- A line without expressions. -/
@[simp]
theorem lineText_nil (front : List Char) : lineText front [] = front := by simp [lineText]

/-- A line up to one of its expressions, and from there on. -/
theorem lineText_append (front : List Char) (before : List Formula) (f : Formula)
    (behind : List Formula) :
    lineText front (before ++ f :: behind) =
      lineText front before ++ '$' :: '(' :: (f.expr ++ ')' :: lineText f.behind behind) := by
  simp [lineText, Formula.text]

/-- A line up to its first expression, and from there on. -/
theorem lineText_cons (front : List Char) (f : Formula) (fs : List Formula) :
    lineText front (f :: fs) = front ++ '$' :: '(' :: (f.expr ++ ')' :: lineText f.behind fs) := by
  simpa using lineText_append front [] f fs

/-- Character literals stand outside of expressions. -/
theorem characters_expr (hexpr : '\'' ∉ expr) (front cs : List Char) :
    characters (front ++ '$' :: '(' :: (expr ++ ')' :: cs)) =
      characters front ++ '$' :: '(' :: (expr ++ ')' :: characters cs) := by
  have hquote : '\'' ∉ '$' :: '(' :: (expr ++ [')']) := by simp [hexpr]
  have hnear : '\'' ∉ ('$' :: '(' :: (expr ++ [')']) ++ cs).take 3 := by
    rw [List.take_append_of_le_length (by simp)]
    exact fun h => hquote (List.mem_of_mem_take h)
  have hsplit : '$' :: '(' :: (expr ++ ')' :: cs) = '$' :: '(' :: (expr ++ [')']) ++ cs := by simp
  rw [hsplit, characters_append hnear, characters_append_of_not_mem hquote]
  simp

/-- No bracket closes in the text behind an expression. -/
theorem not_mem_takeWhile_lineText {front : List Char} (hclose : ')' ∉ front) (fs : List Formula) :
    ')' ∉ (characters (lineText front fs)).takeWhile (· != '$') := by
  have hfront : ')' ∉ characters front := by
    intro h
    rcases mem_of_mem_characters h with h | h
    · exact hclose h
    · exact absurd h (by decide)
  cases fs with
  | nil =>
    rw [lineText_nil]
    exact fun h => hfront ((List.takeWhile_prefix _).mem h)
  | cons f fs =>
    rw [lineText_cons, characters_expr f.expr_quote, List.takeWhile_append]
    split
    · simpa using hfront
    · exact fun h => hfront ((List.takeWhile_prefix _).mem h)

/-- A line whose expressions all have values. -/
theorem spliced_lineText {front : List Char} (hopen : '(' ∉ front) {fs : List Formula}
    (hfs : ∀ f ∈ fs, ∃ w, value f.expr = .ok w) :
    (spliced value (characters (lineText front fs))).2 = none := by
  have htext {cs : List Char} (hcs : '(' ∉ cs) : (spliced value (characters cs)).2 = none := by
    have hnone : ¬ ['$', '('] <:+: characters cs := by
      intro h
      rcases mem_of_mem_characters (h.mem (show '(' ∈ ['$', '('] by decide)) with h | h
      · exact hcs h
      · exact absurd h (by decide)
    cases herror : (spliced value (characters cs)).2 with
    | none => rfl
    | some e =>
      have hfails := expressions_eq_error herror
      rw [expressions_of_not_subtext hnone] at hfails
      cases hfails
  induction fs generalizing front with
  | nil =>
    rw [lineText_nil]
    exact htext hopen
  | cons f fs ih =>
    obtain ⟨⟨w, hw⟩, hrest⟩ := List.forall_mem_cons.mp hfs
    rw [lineText_cons, characters_expr f.expr_quote,
      spliced_expr f.expr_dollar (not_mem_takeWhile_lineText f.behind_close fs) hw,
      ih f.behind_open hrest]
    exact htext hopen

/-- The last expression of a line that has no value decides the error. -/
theorem spliced_lineText_error {front : List Char} {before behind : List Formula} {f : Formula}
    {e : AssemblyError} (herror : value f.expr = .error e)
    (hbehind : ∀ g ∈ behind, ∃ w, value g.expr = .ok w) :
    (spliced value (characters (lineText front (before ++ f :: behind)))).2 = some e := by
  rw [lineText_append, characters_expr f.expr_quote,
    spliced_expr_error f.expr_dollar (not_mem_takeWhile_lineText f.behind_close behind) herror,
    spliced_lineText f.behind_open hbehind]
  rfl

end Literal

namespace Assembler

open Literal (spliced characters)

variable {a : Assembler} {cs : List Char}

/-- A line has words exactly if no expression fails, and then those of the spliced text. -/
theorem wordsOf_eq_ok_iff {words : List String} :
    a.wordsOf (String.ofList cs) = .ok words ↔
      (spliced a.wordOf (characters cs)).2 = none ∧
        words = (Text.fieldsBy isSeparator (spliced a.wordOf (characters cs)).1).map
          String.ofList := by
  unfold wordsOf
  rw [String.toList_ofList]
  cases herror : (spliced a.wordOf (characters cs)).2 with
  | none =>
    rw [Literal.expressions_eq_ok herror]
    constructor
    · intro h
      cases h
      exact ⟨rfl, rfl⟩
    · rintro ⟨_, rfl⟩
      rfl
  | some e =>
    rw [Literal.expressions_eq_error herror]
    constructor
    · intro h
      cases h
    · rintro ⟨h, _⟩
      cases h

/-- A line with an expression that fails has no words. -/
theorem wordsOf_eq_error {e : AssemblyError}
    (herror : (spliced a.wordOf (characters cs)).2 = some e) :
    a.wordsOf (String.ofList cs) = .error e := by
  unfold wordsOf
  rw [String.toList_ofList, Literal.expressions_eq_error herror]
  rfl

/-! ## Words with expressions -/

/-- A text that ends where a word can begin. -/
def EndsWord (cs : List Char) : Prop :=
  cs = [] ∨ ∃ front c, cs = front ++ [c] ∧ isSeparator c = true

/-- A text that begins where a word has ended. -/
def StartsGap (cs : List Char) : Prop :=
  cs = [] ∨ ∃ c behind, cs = c :: behind ∧ isSeparator c = true

/-- A word between such texts is a field. -/
theorem fieldsBy_word_between {pre word post : List Char} (hpre : EndsWord pre)
    (hpost : StartsGap post) (hne : word ≠ []) (hword : ∀ c ∈ word, isSeparator c = false) :
    Text.fieldsBy isSeparator (pre ++ (word ++ post)) =
      Text.fieldsBy isSeparator pre ++ word :: Text.fieldsBy isSeparator post := by
  have hbehind : Text.fieldsBy isSeparator (word ++ post) =
      word :: Text.fieldsBy isSeparator post := by
    obtain rfl | ⟨c, behind, rfl, hc⟩ := hpost
    · rw [List.append_nil, Text.fieldsBy_word hne hword, Text.fieldsBy_nil]
    · have hgap := Text.fieldsBy_append_cons hc [] behind
      rw [Text.fieldsBy_append_cons hc, Text.fieldsBy_word hne hword]
      rw [List.nil_append, Text.fieldsBy_nil, List.nil_append] at hgap
      rw [hgap]
      rfl
  obtain rfl | ⟨front, c, rfl, hc⟩ := hpre
  · rw [List.nil_append, hbehind]
    rfl
  · rw [List.append_assoc, List.singleton_append, Text.fieldsBy_append_cons hc, hbehind,
      Text.fieldsBy_append_cons hc, Text.fieldsBy_nil, List.append_nil]

/-- A separator neither begins nor ends an expression or a literal. -/
theorem ne_of_isSeparator {c : Char} (hc : isSeparator c = true) :
    c ≠ '$' ∧ c ≠ ')' ∧ c ≠ '\'' := by
  refine ⟨?_, ?_, ?_⟩ <;>
    · rintro rfl
      exact absurd hc (by decide)

variable {value : List Char → Except AssemblyError Word}

/-- A separator at the end of a text stays there. -/
theorem endsWord_spliced (h : EndsWord cs) : EndsWord (spliced value (characters cs)).1 := by
  obtain rfl | ⟨front, c, rfl, hc⟩ := h
  · rw [Literal.characters_of_not_mem List.not_mem_nil,
      Literal.spliced_of_not_mem List.not_mem_nil]
    exact .inl rfl
  · refine .inr ⟨(Literal.spliced value (characters front)).1, c, ?_, hc⟩
    rw [Literal.spliced_characters_append
      (List.forall_mem_singleton.mpr (ne_of_isSeparator hc))]

/-- A separator at the front of a text stays there. -/
theorem startsGap_spliced (h : StartsGap cs) : StartsGap (spliced value (characters cs)).1 := by
  obtain rfl | ⟨c, behind, rfl, hc⟩ := h
  · rw [Literal.characters_of_not_mem List.not_mem_nil,
      Literal.spliced_of_not_mem List.not_mem_nil]
    exact .inl rfl
  · obtain ⟨hdollar, _, hquote⟩ := ne_of_isSeparator hc
    have hcons := Literal.characters_append_of_not_mem (show '\'' ∉ [c] by simpa using hquote.symm)
      behind
    refine .inr ⟨c, (Literal.spliced value (characters behind)).1, ?_, hc⟩
    rw [List.singleton_append] at hcons
    rw [hcons, List.singleton_append, Literal.spliced_cons hdollar]

/-- A numeral has no separators. -/
private theorem isSeparator_of_mem_ofWord {w : Word} {c : Char}
    (hc : c ∈ (Numeral.ofWord w).toList) : isSeparator c = false := by
  obtain ⟨hblank, hcomma, _⟩ := Numeral.plain_of_mem_ofWord hc
  have hspace : c ≠ ' ' := by
    rintro rfl
    exact absurd hblank (by decide)
  have htab : c ≠ '\t' := by
    rintro rfl
    exact absurd hblank (by decide)
  simp [isSeparator, hspace, hcomma, htab]

/-- The words of a line on which an expression is a word, or the end of one behind a mark: the
words in front of it, the mark with its numeral, and the words behind it. -/
theorem wordsOf_expr {pre mark expr post : List Char} {w : Word} {front behind : List String}
    (hpre : EndsWord pre) (hpost : StartsGap post)
    (hword : ∀ c ∈ mark, isSeparator c = false)
    (hplain : ∀ c ∈ mark, c ≠ '$' ∧ c ≠ ')' ∧ c ≠ '\'')
    (hdollar : '$' ∉ expr) (hquote : '\'' ∉ expr)
    (hclose : ')' ∉ (characters post).takeWhile (· != '$'))
    (hfront : a.wordsOf (String.ofList pre) = .ok front)
    (hbehind : a.wordsOf (String.ofList post) = .ok behind)
    (hw : a.wordOf expr = .ok w) :
    a.wordsOf (String.ofList (pre ++ mark ++ '$' :: '(' :: (expr ++ ')' :: post))) =
      .ok (front ++ String.ofList (mark ++ (Numeral.ofWord w).toList) :: behind) := by
  obtain ⟨hpreError, rfl⟩ := wordsOf_eq_ok_iff.mp hfront
  obtain ⟨hpostError, rfl⟩ := wordsOf_eq_ok_iff.mp hbehind
  have hspliced : Literal.spliced a.wordOf
      (characters (pre ++ mark ++ '$' :: '(' :: (expr ++ ')' :: post))) =
        ((Literal.spliced a.wordOf (characters pre)).1 ++
          (mark ++ (Numeral.ofWord w).toList ++ (Literal.spliced a.wordOf (characters post)).1),
          none) := by
    rw [Literal.characters_expr hquote, Literal.spliced_expr hdollar hclose hw,
      Literal.spliced_characters_append hplain, hpreError, hpostError]
    simp
  have hne : mark ++ (Numeral.ofWord w).toList ≠ [] :=
    List.append_ne_nil_of_right_ne_nil _ (Numeral.toList_ofWord_ne_nil w)
  have hwhole : ∀ c ∈ mark ++ (Numeral.ofWord w).toList, isSeparator c = false :=
    List.forall_mem_append.mpr ⟨hword, fun _ => isSeparator_of_mem_ofWord⟩
  rw [wordsOf_eq_ok_iff, hspliced]
  refine ⟨rfl, ?_⟩
  rw [fieldsBy_word_between (endsWord_spliced hpre) (startsGap_spliced hpost) hne
    hwhole, List.map_append, List.map_cons]

end Assembler

end TapeMachine
