import TapeMachine.Proofs.Linking
import TapeMachine.Proofs.SourceLines

/-!
# Missing labels

Every line that is read adds at most one entry to the listing, and the labels that its words
refer to are looked up in this order once all lines are read. The first one that is missing
is reported on the last line of the source, and not on the line that refers to it.
-/

namespace TapeMachine.Assembler

/-! ## The entries of the visits -/

/-- The entry that a line adds to the listing, if it is no equate, not empty and no call. -/
def Visit.adds? (v : Visit) : Option Entry :=
  match v.statement with
  | [] => none
  | head :: args =>
    match v.before.macros[head]? with
    | some _ => none
    | none =>
      match Instruction.assemble v.start.equates (head :: args) with
      | .ok terms => some ⟨v.number, v.before.here, head :: args, terms⟩
      | .error _ => none

/-- A line uses a label if a word of its entry refers to it. -/
def Visit.Uses (v : Visit) (label : String) : Prop :=
  ∃ d i, v.adds? = some d ∧ (i, label) ∈ d.links

namespace Visit

variable {v : Visit} {b : Assembler} {c : Option Call}

/-- A line that is read adds its entry at the end of the listing. -/
theorem entries_of_opened (hopened : v.opened = .ok c b) :
    b.entries.toList = v.before.entries.toList ++ v.adds?.toList := by
  have hnone {entries : Array Entry} (hentries : entries = v.before.entries)
      (hentry : v.adds? = none) :
      entries.toList = v.before.entries.toList ++ v.adds?.toList := by
    rw [hentries, hentry, Option.toList_none, List.append_nil]
  rcases v.stated_of_opened hopened with ⟨hstatement, _, hentries, _⟩ | hstated
  · exact hnone hentries (by simp only [adds?, hstatement])
  · cases hstated with
    | empty hstatement => exact hnone rfl (by simp only [adds?, hstatement])
    | call hstatement hcallee =>
      have hcallee' : v.before.macros[_]? = some _ := hcallee
      exact hnone rfl (by simp only [adds?, hstatement, hcallee'])
    | @entry head args terms hstatement hcallee hterms _ =>
      have hcallee' : v.before.macros[head]? = none := hcallee
      have hterms' : Instruction.assemble v.start.equates (head :: args) = .ok terms :=
        hstatement ▸ hterms
      have hentry : v.adds? = some ⟨v.number, v.before.here, head :: args, terms⟩ := by
        simp only [adds?, hstatement, hcallee', hterms']
      rw [hentry, hstatement, Array.toList_push]
      rfl

/-- The entry of a line has its number, its statement, and the terms of this statement. -/
theorem adds?_eq_some {d : Entry} (hentry : v.adds? = some d) :
    d.line = v.number ∧ d.words = v.statement ∧
      Instruction.assemble v.start.equates v.statement = .ok d.terms := by
  unfold adds? at hentry
  split at hentry
  · cases hentry
  · next head args hstatement =>
    split at hentry
    · cases hentry
    split at hentry
    · next terms hterms =>
      cases hentry
      exact ⟨rfl, hstatement.symm, hstatement ▸ hterms⟩
    · cases hentry

/-- What a line uses stands on it. -/
theorem Uses.denotes {label : String} (huses : v.Uses label) :
    ∃ meanings, Instruction.Denotes v.start.equates v.statement meanings ∧
      .label label ∈ meanings := by
  obtain ⟨d, i, hentry, hlink⟩ := huses
  obtain ⟨_, _, hterms⟩ := adds?_eq_some hentry
  obtain ⟨t, ht, hlabel⟩ := Entry.mem_links_iff.mp hlink
  have hne : d.terms ≠ [] := List.ne_nil_of_mem (List.mem_of_getElem? ht)
  obtain ⟨meanings, hdenotes, hassembled⟩ := Instruction.denotes_of_assemble hterms hne
  obtain ⟨meaning, hmeaning, hterm⟩ := Outcome.exists_getElem?_of_forall₂ hassembled.flip ht
  refine ⟨meanings, hdenotes, ?_⟩
  cases hterm with
  | number w => cases hlabel
  | label _ =>
    cases hlabel
    exact List.mem_of_getElem? hmeaning

end Visit

/-- The listing consists of the entries of the visits. -/
theorem Chronicle.entries_eq {α : Type} {a b : Assembler} {vs : List Visit} {x : α}
    (h : Chronicle a vs (.ok x b)) :
    b.entries.toList = a.entries.toList ++ vs.filterMap Visit.adds? := by
  generalize hx : EStateM.Result.ok x b = outcome at h
  induction h with
  | done hsame =>
    cases hx
    rw [hsame.entries, List.filterMap_nil, List.append_nil]
  | fail _ => cases hx
  | stop _ _ _ => cases hx
  | @line a c v _ vs _ hsame hopened _ ih =>
    rw [ih hx, Visit.entries_of_opened hopened, hsame.entries, List.append_assoc]
    cases hentry : v.adds? with
    | none => rw [List.filterMap_cons_none hentry]; rfl
    | some d => rw [List.filterMap_cons_some hentry]; rfl

/-! ## The last line -/

/-- Behind lines that are read stands the last one of them. -/
theorem position_of_readLines {p q : Position} {lines : List String} {a b : Assembler}
    (hlines : (readLines p lines).run a = .ok q b) :
    q.number = p.number + lines.length ∧
      q.line = ((lines.getLast?).map stripped).getD p.line := by
  induction lines generalizing p a with
  | nil =>
    cases hlines
    exact ⟨rfl, rfl⟩
  | cons line lines ih =>
    rw [readLines, EStateM.run_bind, Course.run_within] at hlines
    cases hline : (readSourceLine (p.number + 1) (stripped line) p.opened).run a with
    | error e c =>
      rw [hline] at hlines
      cases hlines
    | ok opened c =>
      rw [hline] at hlines
      obtain ⟨hnumber, hlast⟩ := ih hlines
      refine ⟨?_, ?_⟩
      · rw [hnumber, List.length_cons]
        dsimp only
        omega
      · rw [hlast, List.getLast?_cons]
        cases lines.getLast? with
        | none => rfl
        | some last => rfl

/-- A label that a line uses is known if the entry of the line can be linked. -/
theorem Visit.Uses.known {v : Visit} {label : String} (huses : v.Uses label) {labels : Table Word}
    (hlink : ∀ d, v.adds? = some d → ∃ linked, Entry.Linked labels d linked) :
    ∃ address, labels[label]? = some address := by
  obtain ⟨d, i, hentry, hmem⟩ := huses
  exact Entry.exists_linked_iff.mp (hlink d hentry) i label hmem

/-- The first use of a missing label, among the lines that are read. -/
theorem first_use_of_missing {vs : List Visit} {labels : Table Word} {label : String}
    {front rest : List Entry} {d : Entry}
    (hentries : vs.filterMap Visit.adds? = front ++ d :: rest)
    (hfront : ∀ f ∈ front, ∃ linked, Entry.Linked labels f linked)
    (hd : ∃ i, (i, label) ∈ d.links) :
    ∃ before v after, vs = before ++ v :: after ∧ v.Uses label ∧
      ∀ w ∈ before, ∀ name, w.Uses name → ∃ address, labels[name]? = some address := by
  obtain ⟨before, more, rfl, hbefore, hmore⟩ := List.filterMap_eq_append_iff.mp hentries
  obtain ⟨idle, v, after, rfl, hidle, hv, _⟩ := List.filterMap_eq_cons_iff.mp hmore
  refine ⟨before ++ idle, v, after, by rw [List.append_assoc], ?_, fun w hw name huses => ?_⟩
  · obtain ⟨i, hi⟩ := hd
    exact ⟨d, i, hv, hi⟩
  · refine huses.known fun d' hd' => hfront d' ?_
    rcases List.mem_append.mp hw with hw | hw
    · rw [← hbefore]
      exact List.mem_filterMap.mpr ⟨w, hw, hd'⟩
    · rw [hidle w hw] at hd'
      cases hd'

/-! ## A label that is missing -/

namespace Nowhere

/-- A source that uses a label in front of its last line, and does not define it. -/
def source : Source := { text := "out #x\nhlt" }

/-- The entry of the output. -/
def outEntry : Entry := ⟨1, 0, ["out", "#x"], [⟨104, none⟩, ⟨0, some "x"⟩]⟩

/-- The entry of the halt. -/
def haltEntry : Entry := ⟨2, 2, ["hlt"], [⟨99, none⟩]⟩

/-- An assembler that has read the first line. -/
def outRead : Assembler := ((fresh {}).numbered 1).added outEntry

/-- An assembler that has read both lines. -/
def bothRead : Assembler := (outRead.numbered 2).added haltEntry

/-- No equates or macros were read. -/
theorem bare_outRead : Bare outRead := (Bare.fresh.numbered 1).added outEntry

/-- The output is assembled. -/
theorem run_outLine : (readSourceLine 1 "out #x" none).run (fresh {}) = .ok none outRead := by
  have hfields : (Text.fields "out #x".toList).map String.ofList = ["out", "#x"] := rfl
  have hwords : ((fresh {}).numbered 1).wordsOf "out #x" = .ok ["out", "#x"] := by
    rw [wordsOf_of_not_mem (by decide) (by decide)]
    rfl
  exact run_readSourceLine_of_lower (by rw [hfields]; decide) (by rw [hfields]; decide)
    hwords (by decide) (run_defineLabels_of_none rfl _ _) (Bare.fresh.numbered 1)
    (by decide) rfl (by decide)

/-- The halt is assembled. -/
theorem run_haltLine : (readSourceLine 2 "hlt" none).run outRead = .ok none bothRead := by
  have hfields : (Text.fields "hlt".toList).map String.ofList = ["hlt"] := rfl
  have hwords : (outRead.numbered 2).wordsOf "hlt" = .ok ["hlt"] := by
    rw [wordsOf_of_not_mem (by decide) (by decide)]
    rfl
  exact run_readSourceLine_of_lower (by rw [hfields]; decide) (by rw [hfields]; decide)
    hwords (by decide) (run_defineLabels_of_none rfl _ _) (bare_outRead.numbered 2)
    (by decide) rfl (by decide)

/-- The source is read to its end. -/
theorem run_lines :
    (readLines {} source.lines).run (fresh {}) = .ok ⟨2, "hlt", none⟩ bothRead := by
  have hlines : source.lines = ["out #x", "hlt"] := rfl
  have hout : stripped "out #x" = "out #x" := rfl
  have hhalt : stripped "hlt" = "hlt" := rfl
  rw [hlines, readLines, hout, EStateM.run_bind, Course.run_within, run_outLine]
  dsimp only
  rw [readLines, hhalt, EStateM.run_bind, Course.run_within, run_haltLine]
  rfl

/-- The missing label is reported on the last line. -/
theorem run_parse (order : LinkOrder) :
    ∃ b, (parse order source).run ({} : Assembler) =
      .error (.atLine 2 "hlt" (.labelMissing "x")) b := by
  have hentries : bothRead.entries.toList = [outEntry, haltEntry] := rfl
  have hlinks : ∀ e ∈ [outEntry, haltEntry], ∀ link ∈ e.links, link.2 = "x" := by decide
  have hnone : bothRead.labels["x"]? = none := Std.ExtTreeMap.getElem?_empty
  have hmem : (1, "x") ∈ outEntry.links := by decide
  obtain ⟨b, hlink⟩ := exists_link_error order hnone (hentries ▸ List.mem_cons_self) hmem
    fun e he i other hother _ => hlinks e (hentries ▸ he) _ hother
  refine ⟨b, ?_⟩
  rw [Course.run_parse_eq, run_lines]
  dsimp only
  have hfinish : (finish order source ⟨2, "hlt", none⟩).run bothRead = (link order).run bothRead :=
    rfl
  rw [Course.run_within, hfinish, hlink]

/-- Only the first line uses the label. -/
theorem number_of_uses {v : Visit} (hv : v ∈ visits source {}) (huses : v.Uses "x") :
    v.number = 1 := by
  obtain ⟨d, i, hentry, hlink⟩ := huses
  have hchronicle := chronicle_visits source {}
  rw [run_lines] at hchronicle
  have hmem : d ∈ [outEntry, haltEntry] := by
    have hentries : [outEntry, haltEntry] = [] ++ (visits source {}).filterMap Visit.adds? :=
      hchronicle.entries_eq
    rw [hentries]
    exact List.mem_filterMap.mpr ⟨v, hv, hentry⟩
  have hline : ∀ d ∈ [outEntry, haltEntry], ∀ i, (i, "x") ∈ d.links → d.line = 1 := by
    intro d hd i hi
    rcases List.mem_pair.mp hd with rfl | rfl
    · rfl
    · cases hi
  have hone := hline d hmem i hlink
  rw [(Visit.adds?_eq_some hentry).1] at hone
  exact Int.ofNat.inj hone

end Nowhere

/-- A missing label is reported on the last line of the source, by its number and its text,
wherever it is used. It is used by a line that is read, and all labels that are used before
are known. This line is found in the source by its number and its text, also if it is read
from a macro; but the error is found there only if it happens to be the last one. -/
theorem missing_label_reported_last {order : LinkOrder} {source : Source} {a b : Assembler}
    {e : AssemblyError} {label : String} (hparse : (parse order source).run a = .error e b)
    (hmissing : e.root = .labelMissing label) :
    ∃ last before v after, source.lines.getLast? = some last ∧
      e = .atLine source.lines.length (stripped last) (.labelMissing label) ∧
      visits source a = before ++ v :: after ∧ v.Uses label ∧
      (∃ meanings, Instruction.Denotes v.start.equates v.statement meanings ∧
        .label label ∈ meanings) ∧
      label ∉ (visits source a).flatMap Visit.labels ∧
      (∀ w ∈ before, ∀ name, w.Uses name → name ∈ (visits source a).flatMap Visit.labels) ∧
      v.IsLine source.lines ∧
      ((∃ cause, e = .atLine v.number v.written cause) ↔ v.number = source.lines.length) := by
  obtain ⟨p, c, hlines, rfl, _, front, d, rest, hlisting, hd, hfront⟩ :=
    link_of_parse_missing hparse hmissing
  obtain ⟨hnumber, hline⟩ := position_of_readLines hlines
  have hchronicle := chronicle_visits source a
  rw [hlines] at hchronicle
  have hentries : c.entries.toList = (visits source a).filterMap Visit.adds? :=
    hchronicle.entries_eq
  obtain ⟨before, v, after, hvisits, huses, hbefore⟩ :=
    first_use_of_missing (hentries.symm.trans hlisting) hfront hd
  have hmem : v ∈ visits source a := by
    rw [hvisits]
    exact List.mem_append_right before List.mem_cons_self
  obtain ⟨hpositive, hwritten⟩ := isLine_of_mem_visits hmem
  obtain ⟨raw, hraw, hstripped⟩ := Option.map_eq_some_iff.mp hwritten
  obtain ⟨last, hlast⟩ : ∃ last, source.lines.getLast? = some last := by
    cases hget : source.lines.getLast? with
    | some last => exact ⟨last, rfl⟩
    | none =>
      rw [List.getLast?_eq_none_iff.mp hget] at hraw
      cases hraw
  have hp : p.number = source.lines.length := by
    rw [hnumber]
    exact Nat.zero_add _
  have hpline : p.line = stripped last := by
    rw [hline, hlast]
    rfl
  refine ⟨last, before, v, after, hlast, by rw [hp, hpline], hvisits, huses, huses.denotes,
    not_mem_of_parse_missing hparse hmissing, fun w hw name hname => ?_, ⟨hpositive, hwritten⟩,
    ?_⟩
  · obtain ⟨address, haddress⟩ := hbefore w hw name hname
    rcases (hchronicle.labels_iff name address).mp haddress with hfresh | ⟨u, hu, hlabel, _⟩
    · rw [show a.fresh.labels[name]? = none from Std.ExtTreeMap.getElem?_empty] at hfresh
      cases hfresh
    · exact List.mem_flatMap.mpr ⟨u, hu, hlabel⟩
  · constructor
    · rintro ⟨cause, hcause⟩
      rw [← hp]
      exact (AssemblyError.atLine.inj hcause).1.symm
    · intro hsame
      refine ⟨.labelMissing label, ?_⟩
      have hrawLast : raw = last := by
        rw [hsame, ← List.getLast?_eq_getElem?, hlast] at hraw
        exact (Option.some.inj hraw).symm
      rw [hp, hpline, hsame, ← hstripped, hrawLast]

namespace Nowhere

/-- The label is used on the first line, and reported on the second. -/
theorem missing_label_reported_behind :
    ∃ e b, (parse .ascending source).run ({} : Assembler) = .error e b ∧
      e.root = .labelMissing "x" ∧
      ∃ v ∈ visits source {}, v.Uses "x" ∧ v.number = 1 ∧ v.IsLine source.lines ∧
        ∀ cause, e ≠ .atLine v.number v.written cause := by
  obtain ⟨b, hparse⟩ := run_parse .ascending
  obtain ⟨_, before, v, after, _, _, hvisits, huses, _, _, _, hv, hiff⟩ :=
    missing_label_reported_last hparse rfl
  have hmem : v ∈ visits source {} := by
    rw [hvisits]
    exact List.mem_append_right before List.mem_cons_self
  have hone := number_of_uses hmem huses
  refine ⟨_, b, hparse, rfl, v, hmem, huses, hone, hv, fun cause hcause => ?_⟩
  have htwo := hiff.mp ⟨cause, hcause⟩
  rw [hone] at htwo
  cases htwo

/-- The error is on the second line, and no line that uses the label has this number. -/
theorem missing_label_elsewhere :
    ∃ b, (parse .ascending source).run ({} : Assembler) =
        .error (.atLine 2 "hlt" (.labelMissing "x")) b ∧
      ∀ v ∈ visits source {}, v.Uses "x" → v.number ≠ 2 := by
  obtain ⟨b, hparse⟩ := run_parse .ascending
  refine ⟨b, hparse, fun v hv huses htwo => ?_⟩
  rw [number_of_uses hv huses] at htwo
  cases htwo

end Nowhere

end TapeMachine.Assembler
