import TapeMachine.Proofs.LocalLabels

/-!
# The first line that fails

Lines are read one after the other, and each of them depends only on those in front of
it. So the first line that fails decides the error of a source and the state that it
leaves behind, whatever stands behind that line, and the lines in front of it do not
fail. All other errors are found at the end of a source.
-/

namespace TapeMachine

/-- Whether an error is found at the end of a source: a line or the whole text cannot be read, a
macro is open, or a label is missing. -/
def AssemblyError.comesAtEnd (e : AssemblyError) : Bool :=
  match e.root with
  | lineTooLong | readFailed _ | macroOpen | labelMissing _ => true
  | _ => false

namespace Source

/-- The first lines of a source as a source of their own. -/
def front (s : Source) (k : Nat) : Source :=
  { text := String.ofList (((rawLines s.text.toList).take k).flatMap (· ++ ['\n'])) }

/-- A line has no line feed in it. -/
private theorem not_mem_of_mem_rawLines {text line : List Char} (hline : line ∈ rawLines text) :
    '\n' ∉ line := by
  have hmem : line ∈ Text.pieces (· == '\n') text := by
    unfold rawLines at hline
    dsimp only at hline
    split at hline
    · exact List.mem_of_mem_dropLast hline
    · exact hline
  intro hbreak
  have hno := Text.forall_mem_of_mem_pieces hmem '\n' hbreak
  cases hno

/-- The lines of a front are the first ones of the source. -/
private theorem lines_front (s : Source) (k : Nat) : (s.front k).lines = s.lines.take k := by
  have hraw : rawLines (s.front k).text.toList = (rawLines s.text.toList).take k := by
    rw [front, String.toList_ofList]
    exact rawLines_flatMap fun line hline => not_mem_of_mem_rawLines (List.mem_of_mem_take hline)
  rw [lines, lines, hraw, ← List.map_take]
  congr 1
  exact List.take_takeWhile.symm

end Source

namespace Assembler

/-! ## Lines up to a failure -/

/-- Reading goes on where it stopped. -/
theorem readLines_append (p : Position) (front rest : List String) :
    (readLines p (front ++ rest) : Pass Position) =
      readLines p front >>= fun q => readLines q rest := by
  induction front generalizing p with
  | nil => rfl
  | cons line front ih =>
    rw [List.cons_append, readLines, readLines, bind_assoc]
    congr 1
    funext opened
    exact ih _

/-- How the reading of lines fails: the lines in front of one are read, and this one is not. -/
structure FailsAt (p : Position) (front : List String) (line : String) (a : Assembler)
    (e : AssemblyError) (b : Assembler) : Prop where
  before : ∃ q c, (readLines p front).run a = .ok q c
  failure : ∃ cause, e = .atLine (p.number + front.length + 1) (stripped line) cause
  run : ∀ rest, (readLines p (front ++ line :: rest)).run a = .error e b

/-- Lines that cannot be read have a first one that cannot. -/
theorem exists_failsAt {p : Position} {lines : List String} {a b : Assembler} {e : AssemblyError}
    (herror : (readLines p lines).run a = .error e b) :
    ∃ front line rest, lines = front ++ line :: rest ∧ FailsAt p front line a e b := by
  induction lines generalizing p a with
  | nil => cases herror
  | cons line lines ih =>
    have hcons (rest : List String) : (readLines p (line :: rest)).run a =
        (within (.atLine (p.number + 1) (stripped line))
          (readSourceLine (p.number + 1) (stripped line) p.opened) >>= fun opened =>
            readLines ⟨p.number + 1, stripped line, opened⟩ rest).run a := rfl
    cases hline : (readSourceLine (p.number + 1) (stripped line) p.opened).run a with
    | error cause c =>
      have hrun (rest : List String) : (readLines p (line :: rest)).run a =
          .error (.atLine (p.number + 1) (stripped line) cause) c := by
        rw [hcons, EStateM.run_bind, Course.run_within, hline]
      rw [hrun] at herror
      cases herror
      exact ⟨[], line, lines, rfl, ⟨p, a, rfl⟩, ⟨cause, rfl⟩, hrun⟩
    | ok opened c =>
      have hrun (rest : List String) : (readLines p (line :: rest)).run a =
          (readLines ⟨p.number + 1, stripped line, opened⟩ rest).run c := by
        rw [hcons, EStateM.run_bind, Course.run_within, hline]
      rw [hrun] at herror
      obtain ⟨front, bad, rest, rfl, hbefore, ⟨cause, hcause⟩, hbad⟩ := ih herror
      refine ⟨line :: front, bad, rest, rfl, ?_, ⟨cause, ?_⟩, fun rest => ?_⟩
      · rwa [hrun]
      · rw [hcause, List.length_cons]
        dsimp only
        rw [Nat.add_right_comm p.number 1 front.length, Nat.add_assoc p.number front.length 1]
      · rw [List.cons_append, hrun]
        exact hbad rest

/-! ## The end of a source -/

/-- What fails at the end of a source does not come from a line. -/
private theorem comesAtEnd_of_finish {order : LinkOrder} {source : Source} {p : Position}
    {a b : Assembler} {e : AssemblyError} (herror : (finish order source p).run a = .error e b) :
    e.comesAtEnd = true := by
  rcases run_finish_cases source p a with hlink | ⟨e', hcause, hother⟩
  · rw [hlink] at herror
    obtain ⟨_, _, _, _, _, _, _, rfl, _⟩ := link_eq_error herror
    rfl
  · rw [hother] at herror
    cases herror
    rcases hcause with rfl | ⟨_, rfl⟩ | rfl <;> rfl

/-- Where all lines can be read, an error comes at the end. -/
theorem comesAtEnd_of_readLines {order : LinkOrder} {source : Source} {p : Position}
    {a b c : Assembler} {e : AssemblyError}
    (hlines : (readLines {} source.lines).run a.fresh = .ok p c)
    (hparse : (parse order source).run a = .error e b) : e.comesAtEnd = true := by
  rw [Course.run_parse_eq, hlines] at hparse
  dsimp only at hparse
  rw [Course.run_within] at hparse
  cases hfinish : (finish order source p).run c with
  | ok l d =>
    rw [hfinish] at hparse
    cases hparse
  | error cause d =>
    rw [hfinish] at hparse
    cases hparse
    have hcause : cause.comesAtEnd = true := comesAtEnd_of_finish hfinish
    exact hcause

/-- Lines in front of others that can be read can be read themselves. -/
theorem exists_run_take {p q : Position} {lines : List String} {a b : Assembler}
    (hlines : (readLines p lines).run a = .ok q b) (j : Nat) :
    ∃ q' b', (readLines p (lines.take j)).run a = .ok q' b' := by
  rw [← List.take_append_drop j lines, readLines_append, EStateM.run_bind] at hlines
  cases hfront : (readLines p (lines.take j)).run a with
  | ok q' b' => exact ⟨q', b', rfl⟩
  | error e c =>
    rw [hfront] at hlines
    cases hlines

/-! ## A macro that fails -/

namespace Once

/-- A macro with an unknown instruction. -/
def unknown : List String := ["foo"]

/-- A source that calls it, and goes on. -/
def unknownSource : Source := { text := ".macro m\nfoo\n.endm\nm\nhlt" }

/-- A source that goes on differently. -/
def otherSource : Source := { text := ".macro m\nfoo\n.endm\nm\n.macro m\n.macro" }

/-- The error of the call, which has the line of the macro in it. -/
def unknownError : AssemblyError :=
  .atLine 4 "m" (.atLine 2 "foo" (.inMacro "m" 2 .instructionInvalid))

/-- The assembler where the call fails. -/
def unknownRead : Assembler :=
  Course.unbound ((defining unknown).numbered 4) (((defining unknown).numbered 4).numbered 2)

/-- The line of the macro is no instruction. -/
theorem run_unknownLine (depth : Nat) :
    (readLine depth 2 "foo").run ((defining unknown).numbered 4) =
      .error .instructionInvalid (((defining unknown).numbered 4).numbered 2) := by
  have hbare : ∀ word, isCapital word = false →
      (((defining unknown).numbered 4).numbered 2).equates[word]? = none :=
    ((Bare.fresh.numbered 4).numbered 2).unbound
  have hwords : (((defining unknown).numbered 4).numbered 2).wordsOf "foo" = .ok ["foo"] :=
    wordsOf_of_not_mem (by decide) (by decide) _
  have hstatement : ["foo"].map (((defining unknown).numbered 4).numbered 2).substitute =
      ["foo"] := map_substitute_of_none (by simpa using hbare "foo" (by decide))
  have hnone : (((defining unknown).numbered 4).numbered 2).macros["foo"]? = none :=
    Table.getElem?_foldl_insert [("m", _)] ∅ (by decide)
  obtain ⟨_, hcall⟩ := exists_readLine_eq depth
  rw [hcall, run_readLineWith hwords (by decide) (run_defineLabels_of_none rfl _ _) hstatement
    hnone]
  rfl

/-- The call fails at the line of the macro. -/
private theorem run_unknownCall : (readSourceLine 4 "m" none).run (defining unknown) =
    .error (.atLine 2 "foo" (.inMacro "m" 2 .instructionInvalid)) unknownRead := by
  have hdepth : maxDepth = 999999 + 1 := rfl
  have hlocal : localize "m" 2 "foo" = "foo" := by decide
  have hbody : (readBody (readLine 999999) "m" 2 ["foo"]).run ((defining unknown).numbered 4) =
      .error (.atLine 2 "foo" (.inMacro "m" 2 .instructionInvalid))
        (((defining unknown).numbered 4).numbered 2) := by
    rw [readBody, hlocal, EStateM.run_bind, Course.run_within, run_unknownLine]
  have hfields : (Text.fields "m".toList).map String.ofList = ["m"] := rfl
  refine run_readSourceLine_of_error (by rw [hfields]; decide) (by rw [hfields]; decide) ?_
  rw [hdepth, readLine, readLineWith_eq_bind, EStateM.run_bind, run_opening_call]
  dsimp only
  rw [performCall, callWith, if_neg (by simp)]
  change (withEquates [] (readBody (readLine 999999) "m" 2 ["foo"])).run
    ((defining unknown).numbered 4) = _
  have hbound : Course.bound [] ((defining unknown).numbered 4) = (defining unknown).numbered 4 :=
    rfl
  rw [Course.run_withEquates, hbound, hbody]
  rfl

/-- The source fails at the call, whatever follows. -/
theorem run_unknownLines (rest : List String) :
    (readLines {} (linesOf unknown ++ rest)).run (fresh {}) =
      .error unknownError unknownRead := by
  have hbody : ∀ line ∈ unknown, BodyLine line :=
    fun line hline => List.mem_singleton.mp hline ▸ ⟨by decide, by decide, by decide⟩
  have hopen : stripped ".macro m" = ".macro m" := rfl
  have hclose : stripped ".endm" = ".endm" := rfl
  have hcall : stripped "m" = "m" := rfl
  obtain ⟨q, hnumber, hq, hrun, _⟩ :=
    run_body hbody [] ⟨1, ".macro m", some "m"⟩ rfl (".endm" :: "m" :: rest)
  have hlast : q.number + 1 + 1 = 4 := by rw [hnumber]; rfl
  have hfailure : (readSourceLine 4 "m" (Position.mk (q.number + 1) ".endm" none).opened).run
      (defining ([] ++ unknown)) = _ := run_unknownCall
  change (readLines {} (".macro m" :: (unknown ++ ".endm" :: "m" :: rest))).run (fresh {}) = _
  rw [readLines, hopen, EStateM.run_bind, Course.run_within, run_openLine]
  dsimp only
  rw [hrun, readLines, hclose, hq, EStateM.run_bind, Course.run_within, run_closeLine]
  dsimp only
  rw [readLines, hcall, hlast, EStateM.run_bind, Course.run_within, hfailure]
  rfl

end Once

/-! ## What decides an error -/

/-- The first line that fails decides the error. If a source fails and the error is none that
comes at the end, the error names a line of the source by its number and its text. Every source
with the same lines up to this one fails with the same error, and leaves the same assembler
behind. A source that consists of fewer of these lines fails with no such error. -/
theorem first_failure_decides {order : LinkOrder} {source : Source} {a b : Assembler}
    {e : AssemblyError} (hparse : (parse order source).run a = .error e b)
    (hline : e.comesAtEnd = false) :
    ∃ k line cause, e = .atLine k (stripped line) cause ∧ 1 ≤ k ∧
      source.lines[k - 1]? = some line ∧
      (∀ (other : Source) (order : LinkOrder), other.lines.take k = source.lines.take k →
        (parse order other).run a = .error e b) ∧
      ∀ j < k, ∀ (other : Source) (order : LinkOrder), other.lines = source.lines.take j →
        ∀ e' b', (parse order other).run a = .error e' b' → e'.comesAtEnd = true := by
  cases hlines : (readLines {} source.lines).run a.fresh with
  | ok p c =>
    rw [comesAtEnd_of_readLines hlines hparse] at hline
    cases hline
  | error e' b' =>
    rw [Course.run_parse_eq, hlines] at hparse
    cases hparse
    obtain ⟨front, bad, rest, hsplit, ⟨q, c, hbefore⟩, ⟨cause, hcause⟩, hrun⟩ :=
      exists_failsAt hlines
    have hcount : ({} : Position).number + front.length + 1 = front.length + 1 := by
      rw [Nat.zero_add]
    rw [hcount] at hcause
    refine ⟨front.length + 1, bad, cause, hcause, by omega, ?_, ?_, ?_⟩
    · rw [hsplit, Nat.add_sub_cancel, List.getElem?_append_right (Nat.le_refl _), Nat.sub_self]
      rfl
    · intro other order hother
      have htake : source.lines.take (front.length + 1) = front ++ [bad] := by
        rw [hsplit, List.take_length_add_append]
        rfl
      obtain ⟨more, hmore⟩ : ∃ more, other.lines = front ++ bad :: more := by
        refine ⟨other.lines.drop (front.length + 1), ?_⟩
        conv_lhs => rw [← List.take_append_drop (front.length + 1) other.lines, hother, htake]
        simp
      rw [Course.run_parse_eq, hmore, hrun more]
    · intro j hj other order hother e' b' hother'
      have hfront : source.lines.take j = front.take j := by
        rw [hsplit, List.take_append_of_le_length (by omega)]
      obtain ⟨q', c', hread⟩ := exists_run_take hbefore j
      exact comesAtEnd_of_readLines (by rw [hother, hfront]; exact hread) hother'

namespace Once

/-- A call that fails in its macro, in front of different lines. -/
theorem first_failure_decides_call :
    (parse .ascending unknownSource).run ({} : Assembler) = .error unknownError unknownRead ∧
      unknownError.comesAtEnd = false ∧
      otherSource.lines.take 4 = unknownSource.lines.take 4 ∧
      (parse .descending otherSource).run ({} : Assembler) = .error unknownError unknownRead ∧
      ∀ e b, (parse .descending (unknownSource.front 3)).run ({} : Assembler) = .error e b →
        e.comesAtEnd = true := by
  have hlines : unknownSource.lines = linesOf unknown ++ ["hlt"] := rfl
  have hparse : (parse .ascending unknownSource).run ({} : Assembler) =
      .error unknownError unknownRead := by
    rw [Course.run_parse_eq, hlines, run_unknownLines]
  have hotherLines : otherSource.lines = linesOf unknown ++ [".macro m", ".macro"] := rfl
  have hother : otherSource.lines.take 4 = unknownSource.lines.take 4 := by
    rw [hlines, hotherLines]
    rfl
  obtain ⟨k, line, cause, hcause, _, _, hsame, hfront⟩ := first_failure_decides hparse rfl
  obtain rfl : 4 = k := (AssemblyError.atLine.inj hcause).1
  exact ⟨hparse, rfl, hother, hsame otherSource .descending hother,
    hfront 3 (by decide) _ .descending (unknownSource.lines_front 3)⟩

end Once

end Assembler

end TapeMachine
