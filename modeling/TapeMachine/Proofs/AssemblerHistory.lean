import TapeMachine.Proofs.PlainLines

/-!
# Assemblers with a history

An assembler is used for one source after the other, and names are predefined in
between. A source that fails leaves entries, labels, equates and macros behind as they
were when it failed, also in the midst of a macro. None of this matters to the next
source: it depends on the predefined names only, and these are touched by no source.

The order in which links are taken may be another one for each source. It decides nothing
where a source succeeds. Where labels are missing, it may show in the entry that lacks
them, and nowhere else.
-/

namespace TapeMachine.Assembler

/-! ## What a history leaves behind -/

/-- Something that is done with an assembler. -/
inductive Job where
  | predefine (name text : String)
  /-- A source is assembled, with or without success. -/
  | parse (order : LinkOrder) (source : Source)

namespace Job

/-- The assembler behind a job. -/
def perform (a : Assembler) : Job → Assembler
  | predefine name text => a.predefine name text
  | parse order source => endOf (Assembler.parse order source) a

end Job

/-- The assembler behind a history of jobs, for a language of expressions. -/
def after (script : Script) (history : List Job) : Assembler :=
  history.foldl Job.perform { script }

/-- What two failures of one source have in common, where links may be taken in different
orders. -/
structure AlikeFailures (e e' : AssemblyError) (b b' : Assembler) : Prop where
  given : Course.SameGiven b b'
  labels : b'.labels = b.labels
  equates : b'.equates = b.equates
  macros : b'.macros = b.macros
  /-- The errors are the same, or some entry lacks two different labels. -/
  error : e' = e ∨ ∃ d ∈ b.entries, ∃ i j label label', label ≠ label' ∧
    (i, label) ∈ d.links ∧ b.labels[label]? = none ∧
    (j, label') ∈ d.links ∧ b.labels[label']? = none
  /-- The entries are the same, or one that lacks a label differs by the addresses of other
  labels, which are known. -/
  entries : b'.entries = b.entries ∨ ∃ front d d' rest,
    b.entries.toList = front ++ d :: rest ∧ b'.entries.toList = front ++ d' :: rest ∧
    Entry.Alike b.labels d d' ∧ ∃ i label, (i, label) ∈ d.links ∧ b.labels[label]? = none

/-- Every failure is like itself. -/
theorem AlikeFailures.refl (e : AssemblyError) (b : Assembler) : AlikeFailures e e b b :=
  ⟨.refl b, rfl, rfl, rfl, .inl rfl, .inl rfl⟩

namespace HalfLinked

/-- A source whose last line refers to its own label and to one that is missing. -/
def source : Source := { text := ".data 7\nx: .data x, y" }

/-- The entry of the first line. -/
def firstEntry : Entry := ⟨1, 0, [".data", "7"], [⟨7, none⟩]⟩

/-- The entry of the last line, with a value for the word that refers to its own label. -/
def lastEntry (value : Word) : Entry :=
  ⟨2, 1, [".data", "x", "y"], [⟨value, some "x"⟩, ⟨0, some "y"⟩]⟩

section

variable (a : Assembler)

/-- The assembler behind the first line. -/
def firstRead : Assembler := (a.fresh.numbered 1).added firstEntry

/-- The assembler behind both lines, with an entry for the last one. -/
def read (e : Entry) : Assembler :=
  { (firstRead a).numbered 2 with
    labels := (∅ : Table Word).insert "x" 1
    entries := #[firstEntry, e] }

variable {a} (ha : Bare a.fresh)

include ha

/-- The first line is read, and its entry is added. -/
private theorem run_firstLine :
    (readSourceLine 1 ".data 7" none).run a.fresh = .ok none (firstRead a) := by
  have hwords : (a.fresh.numbered 1).wordsOf ".data 7" = .ok [".data", "7"] :=
    wordsOf_of_not_mem (by decide) (by decide) _
  exact run_readSourceLine_of_lower (by decide) (by decide) hwords (by decide)
    (run_defineLabels_of_none rfl _ _) (ha.numbered 1) (by decide) rfl (by decide)

/-- The last line is read, defines its label, and its entry has links to be filled in. -/
private theorem run_lastLine :
    (readSourceLine 2 "x: .data x, y" none).run (firstRead a) =
      .ok none (read a (lastEntry 0)) := by
  have hwords : ((firstRead a).numbered 2).wordsOf "x: .data x, y" =
      .ok ["x:", ".data", "x", "y"] := wordsOf_of_not_mem (by decide) (by decide) _
  have hlabels : (defineLabels ["x:", ".data", "x", "y"]).run ((firstRead a).numbered 2) =
      .ok [".data", "x", "y"]
        { (firstRead a).numbered 2 with labels := (∅ : Table Word).insert "x" 1 } := by
    have hlabel : labelOf? "x:" = some "x" := rfl
    rw [run_defineLabels_of_some hlabel Std.ExtTreeMap.getElem?_empty,
      run_defineLabels_of_none rfl]
    rfl
  have hbare : Bare (firstRead a) := (ha.numbered 1).added firstEntry
  exact run_readSourceLine_of_lower (by decide) (by decide) hwords (by decide) hlabels
    ((hbare.numbered 2).labelled _) (by decide) rfl (by decide)

/-- The source fails as its links do. -/
theorem run_parse {order : LinkOrder} {b : Assembler}
    (hlink : (link order).run (read a (lastEntry 0)) = .error (.labelMissing "y") b) :
    (parse order source).run a = .error (.atLine 2 "x: .data x, y" (.labelMissing "y")) b := by
  have hlines : source.lines = [".data 7", "x: .data x, y"] := rfl
  have hfirst : stripped ".data 7" = ".data 7" := rfl
  have hlast : stripped "x: .data x, y" = "x: .data x, y" := rfl
  have hread : (readLines {} source.lines).run a.fresh =
      .ok ⟨2, "x: .data x, y", none⟩ (read a (lastEntry 0)) := by
    rw [hlines, readLines, hfirst, EStateM.run_bind, Course.run_within, run_firstLine ha]
    dsimp only
    rw [readLines, hlast, EStateM.run_bind, Course.run_within, run_lastLine ha]
    rfl
  have hfinish : (finish order source ⟨2, "x: .data x, y", none⟩).run (read a (lastEntry 0)) =
      (link order).run (read a (lastEntry 0)) := rfl
  rw [Course.run_parse_eq, hread]
  dsimp only
  rw [Course.run_within, hfinish, hlink]

end

end HalfLinked

/-! ## What a source gives -/

namespace HalfLinked

/-- A history in which a macro is never closed and another one fails when it is called. -/
def history : List Job :=
  [.predefine "N" "1", .parse .ascending { text := ".macro m A\nout A" }, .predefine "K" "5",
    .parse .descending { text := ".macro m A\nout A\nfoo A\n.endm\nm 7" }, .predefine "N" "2"]

/-- A history that gives the same texts in another order. -/
def other : List Job := [.predefine "N" "2", .predefine "K" "5"]

end HalfLinked

end TapeMachine.Assembler
