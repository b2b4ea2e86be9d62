import TapeMachine.Proofs.Course
import TapeMachine.Proofs.Links

/-!
# The layout of what is read

Every step of the reading is one of four changes: a label is defined at the address
of the next word, an entry is added there, all words get their final values, or the
listing and the labels stay as they are. Each of these keeps the listing contiguous
and the labels that were defined before it. So this holds at every moment of the
reading of a source, however the reading ends. Words get their final values in the
last step only.
-/

namespace TapeMachine.Assembler.Course

open Listing

variable {α β : Type}

/-- What reading never changes: the equates that every source starts with, and the language
of expressions. -/
structure SameGiven (a b : Assembler) : Prop where
  predefined : b.predefined = a.predefined
  script : b.script = a.script

/-- Every assembler was given the same as itself. -/
theorem SameGiven.refl (a : Assembler) : SameGiven a a := ⟨rfl, rfl⟩

/-- One change of an assembler while lines are read. -/
inductive Reading (a b : Assembler) : Prop where
  /-- Something else than the listing and the labels. -/
  | aside (hgiven : SameGiven a b) (hentries : b.entries = a.entries)
    (hlabels : b.labels = a.labels)
  /-- A new label gets the address of the next word. -/
  | label (hgiven : SameGiven a b) (name : String)
    (hnew : a.labels[name]? = none) (hentries : b.entries = a.entries)
    (hlabels : b.labels = a.labels.insert name a.here)
  /-- An entry is assembled and added behind the last one. -/
  | entry (hgiven : SameGiven a b) (e : Entry) (hip : e.ip = a.here)
    (hterms : e.terms ≠ [])
    (hassemble : Instruction.assemble b.equates e.words = .ok e.terms)
    (hentries : b.entries = a.entries.push e) (hlabels : b.labels = a.labels)

/-- One change of an assembler while a source is read to its end. -/
inductive Change (a b : Assembler) : Prop where
  | reading (hreading : Reading a b)
  /-- Words get their final values. -/
  | link (hgiven : SameGiven a b)
    (hentries : List.Forall₂ Entry.SameLayout a.entries.toList b.entries.toList)
    (hlabels : b.labels = a.labels)

/-! ## Every step of the reading is a change -/

/-- The words of a line are found without a change. -/
theorem run_readWords (line : String) (a : Assembler) :
    (readWords line).run a =
      match a.wordsOf line with
      | .ok words => .ok words a
      | .error e => .error e a := rfl

/-- An assembler with further equates. -/
def bound (bindings : List (String × String)) (a : Assembler) : Assembler :=
  { a with equates := bindings.foldl (fun table entry => table.insert entry.1 entry.2) a.equates }

/-- An assembler with the equates of another one. -/
def unbound (a b : Assembler) : Assembler := { b with equates := a.equates }

/-- A part of the reading with further equates starts with them, and leaves none behind. -/
theorem run_withEquates (bindings : List (String × String)) (p : Pass Unit) (a : Assembler) :
    (withEquates bindings p).run a =
      match p.run (bound bindings a) with
      | .ok x b => .ok x (unbound a b)
      | .error e b => .error e (unbound a b) := by
  have hbind : (withEquates bindings p).run a =
      (try p finally restoreEquates a.equates).run (bound bindings a) := rfl
  rw [hbind, run_tryFinally]
  cases p.run (bound bindings a) with
  | ok x b => rfl
  | error e b => rfl

/-- Changing nothing is reading. -/
theorem Reading.refl (a : Assembler) : Reading a a := .aside ⟨rfl, rfl⟩ rfl rfl

/-- Changing nothing is a change. -/
theorem Change.refl (a : Assembler) : Change a a := .reading (.refl a)

/-- Noting the number of a line is reading. -/
private theorem reading_setLine (number : Nat) (a : Assembler) : Reading a
    (endOf (setLine number) a) :=
  .aside ⟨rfl, rfl⟩ rfl rfl

/-- Finding the words of a line is reading. -/
private theorem reading_readWords (line : String) (a : Assembler) :
    Reading a (endOf (readWords line) a) := by
  unfold endOf
  rw [run_readWords]
  cases a.wordsOf line with
  | ok words => exact .refl a
  | error e => exact .refl a

/-- Defining an equate is reading. -/
private theorem reading_defineEquate (args : List String) (a : Assembler) :
    Reading a (endOf (defineEquate args) a) := by
  unfold defineEquate
  split
  · next name text =>
    unfold endOf
    simp only [EStateM.run_bind, EStateM.run_get]
    by_cases hknown : a.equates.contains name = true
    · rw [if_pos hknown]
      exact .refl a
    · rw [if_neg hknown]
      exact .aside ⟨rfl, rfl⟩ rfl rfl
  · exact .refl a

/-- Defining a label is reading. -/
private theorem reading_defineLabel (label : String) (a : Assembler) :
    Reading a (endOf (defineLabel label) a) := by
  unfold defineLabel endOf
  simp only [EStateM.run_bind, EStateM.run_get]
  by_cases hknown : a.labels.contains label = true
  · rw [if_pos hknown]
    exact .refl a
  · rw [if_neg hknown]
    have hnew : a.labels[label]? = none := by simpa using hknown
    exact .label ⟨rfl, rfl⟩ label hnew rfl rfl

/-- Adding an entry is reading. -/
private theorem reading_emit (number : Nat) (words : List String) (a : Assembler) :
    Reading a (endOf (emit number words) a) := by
  unfold emit endOf
  simp only [EStateM.run_bind, EStateM.run_get]
  cases hassemble : Instruction.assemble a.equates words with
  | error e => exact .refl a
  | ok terms =>
    cases terms with
    | nil => exact .refl a
    | cons t rest =>
      exact .entry ⟨rfl, rfl⟩ ⟨number, a.here, words, t :: rest⟩ rfl (List.cons_ne_nil t rest)
        hassemble rfl rfl

/-- Beginning the definition of a macro is reading. -/
private theorem reading_openMacro (number : Nat) (args : List String) (a : Assembler) :
    Reading a (endOf (openMacro number args) a) := by
  unfold openMacro endOf
  cases args with
  | nil => exact .refl a
  | cons name params =>
    simp only [EStateM.run_bind, EStateM.run_get]
    by_cases hknown : a.macros.contains name = true
    · rw [if_pos hknown]
      exact .refl a
    · rw [if_neg hknown]
      exact .aside ⟨rfl, rfl⟩ rfl rfl

/-- Adding a line to a macro is reading. -/
private theorem reading_extendMacro (name line : String) (a : Assembler) :
    Reading a (endOf (extendMacro name line) a) :=
  .aside ⟨rfl, rfl⟩ rfl rfl

/-- Linking changes the values of words only, also where it fails. -/
theorem change_link (order : LinkOrder) (a : Assembler) : Change a (endOf (link order) a) := by
  unfold endOf
  cases hlink : (link order).run a with
  | ok l b =>
    obtain ⟨hentries, rfl⟩ := link_eq_ok_iff.mp hlink
    exact .link ⟨rfl, rfl⟩ (hentries.imp fun _ _ => Entry.Linked.sameLayout) rfl
  | error e b =>
    obtain ⟨_, front, d, rest, linked, f, hentries, _, rfl, hfront, hpartly, _⟩ :=
      link_eq_error hlink
    refine .link ⟨rfl, rfl⟩ ?_ rfl
    rw [hentries]
    have hrest : List.Forall₂ Entry.SameLayout rest rest :=
      List.forall₂_same.mpr fun _ _ => ⟨rfl, rfl⟩
    exact List.rel_append (hfront.imp fun _ _ => Entry.Linked.sameLayout)
      (.cons hpartly.sameLayout hrest)

/-- A computation with equates for its time ends without them. -/
theorem endOf_withEquates (bindings : List (String × String)) (p : Pass Unit) (a : Assembler) :
    endOf (withEquates bindings p) a = unbound a (endOf p (bound bindings a)) := by
  unfold endOf
  rw [run_withEquates]
  cases p.run (bound bindings a) with
  | ok x b => rfl
  | error e b => rfl

/-- The end of a source is a change. -/
theorem change_finish (order : LinkOrder) (source : Source) (p : Position) (a : Assembler) :
    Change a (endOf (finish order source p) a) := by
  rcases run_finish_cases source p a with hlink | ⟨e, _, herror⟩
  · have hend : endOf (finish order source p) a = endOf (link order) a := by
      rw [endOf, endOf, hlink]
    exact hend ▸ change_link order a
  · rw [endOf, herror]
    exact .refl a

/-! ## Reading is gradual -/

/-- Both to bind equates and to forget them are changes of their own. -/
theorem Gradual.withEquates {p : PassIn Course Unit} {q : Pass Unit} (hp : Gradual Reading p q)
    (bindings : List (String × String)) :
    Gradual Reading (withEquates bindings p) (withEquates bindings q) :=
  .bind (.lift fun _ => .aside ⟨rfl, rfl⟩ rfl rfl) fun _ =>
    .tryFinally hp (.lift fun _ => .aside ⟨rfl, rfl⟩ rfl rfl)

/-- Labels are defined step by step. -/
theorem gradual_defineLabels (words : List String) :
    Gradual Reading (defineLabels words) (defineLabels words) := by
  induction words with
  | nil => exact .pure []
  | cons word words ih =>
    unfold defineLabels
    cases labelOf? word with
    | none => exact .pure _
    | some label => exact .bind (.lift (reading_defineLabel label)) fun _ => ih

/-- A line is read gradually if macros are called so. -/
theorem gradual_readLineWith {call : Macro → String → List String → PassIn Course Unit}
    {call' : Macro → String → List String → Pass Unit}
    (hcall : ∀ m name args, Gradual Reading (call m name args) (call' m name args))
    (number : Nat) (line : String) :
    Gradual Reading (readLineWith call number line) (readLineWith call' number line) := by
  refine .bind (.lift (reading_setLine number)) fun _ => ?_
  refine .bind (.lift (reading_readWords line)) fun words => ?_
  split
  · exact .pure ()
  · exact .lift (reading_defineEquate _)
  · refine .bind (gradual_defineLabels _) fun rest => ?_
    refine .bind (.lift Reading.refl) fun a => ?_
    split
    · exact .pure ()
    · split
      · exact .lift (reading_emit number _)
      · exact hcall _ _ _

/-- A body is read step by step if its lines are. -/
private theorem gradual_readBody {read : Nat → String → PassIn Course Unit}
    {read' : Nat → String → Pass Unit}
    (hread : ∀ number line, Gradual Reading (read number line) (read' number line))
    (name : String) (number : Nat) (lines : List String) :
    Gradual Reading (readBody read name number lines) (readBody read' name number lines) := by
  induction lines generalizing number with
  | nil => exact .pure ()
  | cons line lines ih => exact .bind ((hread _ _).within _) fun _ => ih _

/-- A call is performed step by step if the lines of the body are read so. -/
theorem gradual_callWith {read : Nat → String → PassIn Course Unit}
    {read' : Nat → String → Pass Unit}
    (hread : ∀ number line, Gradual Reading (read number line) (read' number line)) (m : Macro)
    (name : String) (args : List String) :
    Gradual Reading (callWith read m name args) (callWith read' m name args) := by
  unfold callWith
  split
  · exact .throw _
  · exact (gradual_readBody hread name m.line _).withEquates _

/-- A line is read step by step. -/
theorem gradual_readLine (depth number : Nat) (line : String) :
    Gradual Reading (readLine depth number line) (readLine depth number line) := by
  -- A line reads the lines of a macro one level deeper, down to a call that is refused.
  induction depth generalizing number line with
  | zero => exact gradual_readLineWith (gradual_callWith fun _ _ => .throw _) number line
  | succ depth ih => exact gradual_readLineWith (gradual_callWith ih) number line

/-- A line of a source is read step by step. -/
private theorem gradual_readSourceLine (number : Nat) (line : String) (opened : Option String) :
    Gradual Reading (readSourceLine number line opened) (readSourceLine number line opened) := by
  unfold readSourceLine
  split
  · split
    · exact .throw _
    · exact .bind (.lift (reading_openMacro number _)) fun name => .pure (some name)
  · split
    · exact .throw _
    · exact .pure none
  · split
    · next name => exact .bind (.lift (reading_extendMacro name line)) fun _ => .pure (some name)
    · exact .bind (gradual_readLine maxDepth number line) fun _ => .pure none

/-- The lines of a source are read gradually. -/
theorem gradual_readLines (p : Position) (lines : List String) :
    Gradual Reading (readLines p lines) (readLines p lines) := by
  induction lines generalizing p with
  | nil => exact .pure p
  | cons line lines ih => exact .bind ((gradual_readSourceLine _ _ _).within _) fun _ => ih _

/-- A source is read gradually once the assembler is fresh. -/
theorem gradual_readSource (order : LinkOrder) (source : Source) :
    Gradual Change
      (readLines {} source.lines >>= fun p =>
        within (.atLine p.number p.line) (liftM (finish order source p)))
      (readLines {} source.lines >>= fun p =>
        within (.atLine p.number p.line) (finish order source p)) := by
  refine .bind ?_ fun p => (Gradual.lift (change_finish order source p)).within _
  exact (gradual_readLines {} source.lines).mono fun _ _ => .reading

/-! ## What holds along a path -/

/-- The next word goes behind all others. -/
theorem here_eq {a : Assembler} (ha : Contiguous a.entries.toList) :
    a.here = Int64.ofNat (codesOf a.entries.toList).length := by
  unfold here
  rw [← Array.getLast?_toList]
  cases hlast : a.entries.toList.getLast? with
  | none =>
    rw [List.getLast?_eq_none_iff.mp hlast]
    rfl
  | some e =>
    obtain ⟨before, hentries⟩ := List.getLast?_eq_some_iff.mp hlast
    rw [hentries] at ha ⊢
    exact ha.next_eq

/-- A change keeps the listing contiguous. -/
theorem Change.contiguous {a b : Assembler} (hchange : Change a b)
    (ha : Contiguous a.entries.toList) : Contiguous b.entries.toList := by
  cases hchange with
  | link _ hentries _ => exact ha.of_sameLayout hentries
  | reading hreading =>
    cases hreading with
    | aside _ hentries _ => rwa [hentries]
    | label _ name _ hentries _ => rwa [hentries]
    | entry _ e hip hterms _ hentries _ =>
      rw [hentries, Array.toList_push]
      refine ha.push (hip.trans (here_eq ha)) ?_
      exact fun hcodes => hterms (List.map_eq_nil_iff.mp hcodes)

/-- Every label keeps its address. -/
def LabelsKept (a b : Assembler) : Prop :=
  ∀ (name : String) (address : Word), a.labels[name]? = some address →
    b.labels[name]? = some address

/-- A label that is new has the number of words so far for its address. -/
def LabelsPlaced (a b : Assembler) : Prop :=
  ∀ (name : String) (address : Word), a.labels[name]? = none → b.labels[name]? = some address →
    address = Int64.ofNat (codesOf a.entries.toList).length

/-- A change defines at most one label, which gets the address of the next word. -/
theorem Change.labels_eq {a b : Assembler} (hchange : Change a b) :
    b.labels = a.labels ∨
      ∃ name, a.labels[name]? = none ∧ b.labels = a.labels.insert name a.here := by
  cases hchange with
  | link _ _ hlabels => exact .inl hlabels
  | reading hreading =>
    cases hreading with
    | aside _ _ hlabels => exact .inl hlabels
    | entry _ _ _ _ _ _ hlabels => exact .inl hlabels
    | label _ name hnew _ hlabels => exact .inr ⟨name, hnew, hlabels⟩

/-- A change keeps the labels. -/
theorem Change.labelsKept {a b : Assembler} (hchange : Change a b) : LabelsKept a b := by
  intro name address haddress
  rcases hchange.labels_eq with hlabels | ⟨other, hnew, hlabels⟩
  · rwa [hlabels]
  · have hne : other ≠ name := by
      rintro rfl
      rw [hnew] at haddress
      cases haddress
    rw [hlabels, Std.ExtTreeMap.getElem?_insert]
    simpa [hne] using haddress

/-- A change places new labels at the end of the entries. -/
theorem Change.labelsPlaced {a b : Assembler} (hchange : Change a b)
    (ha : Contiguous a.entries.toList) : LabelsPlaced a b := by
  intro name address hnone haddress
  rcases hchange.labels_eq with hlabels | ⟨other, _, hlabels⟩
  · rw [hlabels, hnone] at haddress
    cases haddress
  · rw [hlabels, Std.ExtTreeMap.getElem?_insert] at haddress
    split at haddress
    · exact (Option.some.inj haddress).symm.trans (here_eq ha)
    · rw [hnone] at haddress
      cases haddress

/-- Entries follow each other all along a path. -/
theorem Path.contiguous {a b : Assembler} {moments : List Assembler}
    (hpath : Path Change a moments b) (ha : Contiguous a.entries.toList) :
    ∀ c ∈ a :: moments, Contiguous c.entries.toList := by
  induction hpath with
  | nil a => simpa using ha
  | cons hchange _ ih => exact List.forall_mem_cons.mpr ⟨ha, ih (hchange.contiguous ha)⟩

/-- Labels are kept all along a path. -/
theorem Path.labelsKept {a b : Assembler} {moments : List Assembler}
    (hpath : Path Change a moments b) : (a :: moments).Pairwise LabelsKept := by
  induction hpath with
  | nil a => exact List.pairwise_singleton _ a
  | cons hchange _ ih =>
    refine .cons ?_ ih
    intro c hc name address haddress
    have hkept := hchange.labelsKept name address haddress
    rcases List.mem_cons.mp hc with rfl | hc
    · exact hkept
    · exact List.rel_of_pairwise_cons ih hc name address hkept

/-- Each step of a path places its new labels. -/
theorem Path.labelsPlaced {a b : Assembler} {moments : List Assembler}
    (hpath : Path Change a moments b) (ha : Contiguous a.entries.toList) :
    (a :: moments).IsChain LabelsPlaced := by
  induction hpath with
  | nil a => exact .singleton a
  | cons hchange _ ih =>
    exact .cons_cons (hchange.labelsPlaced ha) (ih (hchange.contiguous ha))

/-! ## Sources -/

/-- A source read in a course: the outcome is that of the assembler, and the moments are those
of a path that starts with the fresh one. -/
theorem run_parse_course (order : LinkOrder) (source : Source) (a : Assembler) :
    ∃ moments, Path Change a.fresh moments (endOf (parse order source) a) ∧
      (parse order source).run (⟨a, []⟩ : Course) =
        noted (a.fresh :: moments) ((parse order source).run a) :=
  gradual_readSource order source ⟨a.fresh, [a.fresh]⟩

/-- The moments of the reading of a source. -/
def ofSource (order : LinkOrder) (source : Source) (a : Assembler) : List Assembler :=
  momentsOf ((parse order source).run (⟨a, []⟩ : Course))

/-- Reading the lines of a source goes by steps that are moments of the source. -/
theorem path_readLines (order : LinkOrder) (source : Source) (a : Assembler) :
    ∃ moments, Path Reading a.fresh moments (endOf (readLines {} source.lines) a.fresh) ∧
      ∀ m ∈ moments, m ∈ ofSource order source a := by
  obtain ⟨moments, hpath, hrun⟩ := gradual_readLines {} source.lines ⟨a.fresh, [a.fresh]⟩
  refine ⟨moments, hpath, fun m hm => ?_⟩
  have hall : m ∈ [a.fresh] ++ moments := List.mem_append_right _ hm
  have hparse : (parse order source).run (⟨a, []⟩ : Course) =
      (readLines {} source.lines >>= fun p => within (.atLine p.number p.line)
        (liftM (finish order source p))).run (⟨a.fresh, [a.fresh]⟩ : Course) := rfl
  rw [ofSource, hparse, EStateM.run_bind, hrun]
  cases (readLines {} source.lines).run a.fresh with
  | error e b => exact hall
  | ok p c =>
    -- What comes behind the lines keeps the moments so far.
    obtain ⟨more, _, hfinish⟩ := ((Gradual.lift (change_finish order source p)).within
      (.atLine p.number p.line)) ⟨c, [a.fresh] ++ moments⟩
    dsimp only [noted]
    rw [hfinish, momentsOf_noted]
    exact List.mem_append_left _ hall

/-- A source leads from the fresh assembler to the end by changes. -/
theorem path_of_parse (order : LinkOrder) (source : Source) (a : Assembler) :
    ∃ moments, Path Change a.fresh moments (endOf (parse order source) a) := by
  obtain ⟨moments, hpath, _⟩ := run_parse_course order source a
  exact ⟨moments, hpath⟩

/-- A source ends with a listing only if linking does. -/
theorem finish_eq_ok {order : LinkOrder} {source : Source} {p : Position} {a b : Assembler}
    {l : Listing} (hfinish : (finish order source p).run a = .ok l b) :
    (link order).run a = .ok l b := by
  rcases run_finish_cases source p a with hlink | ⟨e, _, herror⟩
  · rwa [← hlink]
  · rw [herror] at hfinish
    cases hfinish

/-- What succeeds in a context succeeds without it. -/
private theorem run_of_within {context : AssemblyError → AssemblyError} {p : Pass α}
    {a b : Assembler}
    {x : α} (hwithin : (within context p).run a = .ok x b) : p.run a = .ok x b := by
  rw [run_within] at hwithin
  cases hrun : p.run a with
  | ok y c => rwa [hrun] at hwithin
  | error e c =>
    rw [hrun] at hwithin
    cases hwithin

/-- A source is read line by line from a fresh assembler on, and then finished. -/
theorem run_parse_eq (order : LinkOrder) (source : Source) (a : Assembler) :
    (parse order source).run a =
      match (readLines {} source.lines).run a.fresh with
      | .ok p c => (within (.atLine p.number p.line) (finish order source p)).run c
      | .error e b => .error e b := by
  have hbind : (parse order source).run a =
      (readLines {} source.lines >>= fun p =>
        within (.atLine p.number p.line) (finish order source p)).run a.fresh := rfl
  rw [hbind, EStateM.run_bind]
  cases (readLines {} source.lines).run a.fresh with
  | ok p c => rfl
  | error e b => rfl

/-- A source has a listing only if its lines are read and their entries linked. -/
theorem parse_eq_ok {order : LinkOrder} {source : Source} {a b : Assembler} {l : Listing}
    (hparse : (parse order source).run a = .ok l b) :
    ∃ p c, (readLines {} source.lines).run a.fresh = .ok p c ∧
      (link order).run c = .ok l b := by
  rw [run_parse_eq] at hparse
  cases hlines : (readLines {} source.lines).run a.fresh with
  | error e c =>
    rw [hlines] at hparse
    cases hparse
  | ok p c =>
    rw [hlines] at hparse
    exact ⟨p, c, rfl, finish_eq_ok (run_of_within hparse)⟩

/-- The order of links decides neither whether a source succeeds nor with which listing. -/
theorem parse_eq_ok_of_order {order : LinkOrder} {source : Source} {a b : Assembler} {l : Listing}
    (hparse : (parse order source).run a = .ok l b) (order' : LinkOrder) :
    (parse order' source).run a = .ok l b := by
  obtain ⟨p, c, hlines, hlink⟩ := parse_eq_ok hparse
  rw [run_parse_eq, hlines] at hparse ⊢
  dsimp only at hparse ⊢
  rw [run_within] at hparse ⊢
  rcases run_finish_cases source p c with hfinish | ⟨e, _, hfinish⟩
  · rw [hfinish, link_eq_ok_of_order hlink order']
  · rw [hfinish] at hparse
    cases hparse

/-- The listing of a source has the entries that the assembler has in the end. -/
theorem entries_of_parse {order : LinkOrder} {source : Source} {a b : Assembler} {l : Listing}
    (hparse : (parse order source).run a = .ok l b) : l.entries = b.entries := by
  obtain ⟨_, c, _, hlink⟩ := parse_eq_ok hparse
  obtain ⟨_, rfl⟩ := link_eq_ok_iff.mp hlink
  rfl

/-- The entries of a source are contiguous. -/
theorem contiguous_of_parse {order : LinkOrder} {source : Source} {a b : Assembler} {l : Listing}
    (hparse : (parse order source).run a = .ok l b) : Contiguous l.entries.toList := by
  obtain ⟨moments, hpath⟩ := path_of_parse order source a
  have hend : endOf (parse order source) a = b := by
    unfold endOf
    rw [hparse]
  have hlast := hpath.getLast?
  rw [hend] at hlast
  rw [entries_of_parse hparse]
  exact hpath.contiguous contiguous_nil b (List.mem_of_getLast? hlast)

/-- The layout of a source at every moment of its reading, and what follows for its
listing. Entries are contiguous throughout, whether the reading succeeds or fails. A
label is placed behind the words so far, and stays there. If all addresses are words,
the image is made of the words in order, and each of its addresses is found in the one
entry that it belongs to. -/
theorem layout_of_parse (order : LinkOrder) (source : Source) (a : Assembler) :
    let course := (parse order source).run (⟨a, []⟩ : Course)
    outcome course = (parse order source).run a ∧
      (momentsOf course).head? = some a.fresh ∧ a.fresh.labels = ∅ ∧
      (momentsOf course).getLast? = some (endOf (parse order source) a) ∧
      (∀ b ∈ momentsOf course, Contiguous b.entries.toList) ∧
      (momentsOf course).IsChain LabelsPlaced ∧ (momentsOf course).Pairwise LabelsKept ∧
      ∀ l b, (parse order source).run a = .ok l b →
        Contiguous l.entries.toList ∧
        ((codesOf l.entries.toList).length < 2 ^ 63 →
          l.image? = some (codesOf l.entries.toList).toArray ∧
          (∀ address < (codesOf l.entries.toList).length, ∃ e ∈ l.entries, ∃ i : Nat,
            l.find? (Int64.ofNat address) = some (e, (i : Int)) ∧ i < e.codes.length ∧
            e.codes[i]? = (codesOf l.entries.toList)[address]? ∧
            ∀ d ∈ l.entries, d.ip.toInt ≤ address → address < d.ip.toInt + d.codes.length →
              d = e) ∧
          ∀ ip : Word, ip.toInt < 0 ∨ (codesOf l.entries.toList).length ≤ ip.toInt →
            l.find? ip = none) := by
  intro course
  obtain ⟨moments, hpath, hcourse⟩ := run_parse_course order source a
  have hrun : course = noted (a.fresh :: moments) ((parse order source).run a) := hcourse
  rw [hrun, outcome_noted, momentsOf_noted]
  refine ⟨rfl, rfl, rfl, hpath.getLast?, hpath.contiguous contiguous_nil,
    hpath.labelsPlaced contiguous_nil, hpath.labelsKept, ?_⟩
  intro l b hparse
  have hl := contiguous_of_parse hparse
  refine ⟨hl, fun hsize => ⟨image?_of_contiguous hl (Nat.le_of_lt hsize), ?_, ?_⟩⟩
  · exact fun address haddress => find?_of_lt hl hsize haddress
  · exact fun ip hip => find?_of_outside hl hsize hip

end TapeMachine.Assembler.Course
