import TapeMachine.Proofs.ReplacedWords

/-!
# Macro calls

The call of a macro reads its lines with the parameters equated to the arguments. Where
the lines are plain, and no equate gets in the way, this gives the same words of the
program as the lines have in the place of the call, with the parameters replaced by the
arguments. The two readings go abreast, line by line, and fail together.
-/

namespace TapeMachine

/-- What is found in a table was put into it or was there before. -/
theorem Table.mem_or_of_getElem?_foldl_insert {α : Type} {pairs : List (String × α)}
    {table : Table α} {name : String} {value : α}
    (h : (pairs.foldl (fun table entry => table.insert entry.1 entry.2) table)[name]? =
      some value) : (name, value) ∈ pairs ∨ table[name]? = some value := by
  induction pairs generalizing table with
  | nil => exact .inr h
  | cons entry pairs ih =>
    rw [List.foldl_cons] at h
    rcases ih h with hmem | hfound
    · exact .inl (List.mem_cons_of_mem entry hmem)
    · rw [Std.ExtTreeMap.getElem?_insert] at hfound
      by_cases hname : compare entry.1 name = .eq
      · rw [if_pos hname] at hfound
        obtain rfl : entry.1 = name := by simpa using hname
        obtain rfl := Option.some.inj hfound
        exact .inl List.mem_cons_self
      · rw [if_neg hname] at hfound
        exact .inr hfound

namespace Assembler

open Course (bound unbound)
open Outcome (Agree)

/-! ## Plain lines of either reading -/

/-- A word in which no literal begins. -/
def Verbatim (word : String) : Prop := '\'' ∉ word.toList ∧ ¬ ['$', '('] <:+: word.toList

instance : DecidablePred Verbatim := fun _ => inferInstanceAs (Decidable (_ ∧ _))

/-- What a line has on it without a separator is in one of its words. -/
theorem exists_mem_writtenWords {part : List Char} {line : String} (hne : part ≠ [])
    (hpart : ∀ c ∈ part, isSeparator c = false) (hline : part <:+: line.toList) :
    ∃ word ∈ writtenWords line, part <:+: word.toList := by
  obtain ⟨field, hfield, hin⟩ := Text.exists_mem_fieldsBy_of_subtext hne hpart hline
  refine ⟨String.ofList field, List.mem_map_of_mem hfield, ?_⟩
  rwa [String.toList_ofList]

/-- A character is not in a line if it is in none of its words. -/
theorem not_mem_of_writtenWords {c : Char} {line : String} (hc : isSeparator c = false)
    (hwords : ∀ word ∈ writtenWords line, c ∉ word.toList) : c ∉ line.toList := by
  intro hmem
  have hpart : [c] <:+: line.toList := by
    obtain ⟨before, behind, heq⟩ := List.append_of_mem hmem
    exact ⟨before, behind, by simp [heq]⟩
  obtain ⟨word, hword, hin⟩ :=
    exists_mem_writtenWords (List.cons_ne_nil c []) (by simpa using hc) hpart
  exact hwords word hword (hin.mem List.mem_cons_self)

/-- The words of a line without literals are those that are written. -/
theorem wordsOf_of_verbatim {line : String} (hwords : ∀ word ∈ writtenWords line, Verbatim word)
    (a : Assembler) : a.wordsOf line = .ok (writtenWords line) := by
  have hquote : '\'' ∉ line.toList :=
    not_mem_of_writtenWords (by decide) fun word hword => (hwords word hword).1
  have hdollar : ¬ ['$', '('] <:+: line.toList := by
    intro hline
    obtain ⟨word, hword, hin⟩ :=
      exists_mem_writtenWords (List.cons_ne_nil _ _) (by simp [isSeparator]) hline
    exact (hwords word hword).2 hin
  unfold wordsOf
  rw [Literal.characters_of_not_mem hquote, Literal.expressions_of_not_subtext hdollar]
  rfl

/-- A line that defines nothing and calls no macro is emitted, with its equates replaced. -/
theorem run_readLine_of_verbatim {a : Assembler} {number : Nat} {line : String}
    (hwords : ∀ word ∈ writtenWords line, Verbatim word)
    (hhead : ∀ head, (writtenWords line).head? = some head →
      head ≠ ".equ" ∧ labelOf? head = none ∧
        a.macros[(a.numbered number).substitute head]? = none) (depth : Nat) :
    (readLine depth number line).run a =
      (emit number ((writtenWords line).map (a.numbered number).substitute)).run
        (a.numbered number) := by
  have hread := wordsOf_of_verbatim hwords (a.numbered number)
  obtain ⟨call, hcall⟩ := exists_readLine_eq depth
  rw [hcall]
  cases hline : writtenWords line with
  | nil =>
    rw [hline] at hread
    unfold readLineWith
    simp only [liftM_pass]
    rw [EStateM.run_bind, run_setLine]
    dsimp only
    rw [EStateM.run_bind, Course.run_readWords, hread]
    rfl
  | cons head args =>
    obtain ⟨hequate, hlabel, hmacro⟩ := hhead head (by rw [hline]; rfl)
    rw [hline] at hread
    exact run_readLineWith hread (fun h => hequate (Option.some.inj h))
      (run_defineLabels_of_none hlabel args _) rfl hmacro

/-! ## Arguments -/

/-- Whether a word is made like a number or an identifier, bare or behind a mark. -/
def isSimple (word : String) : Bool := word.toList.all isPlain && word.toList.head? != some '.'

/-- A simple word is simple behind a mark. -/
theorem isSimple_mark_append {word : String} (hword : isSimple word = true) (form : Operand.Form) :
    isSimple (form.mark ++ word) = true := by
  unfold isSimple at hword ⊢
  rw [Bool.and_eq_true] at hword
  rw [String.toList_append, List.all_append, hword.1]
  cases form with
  | bare => simpa [Operand.Form.mark] using hword.2
  | immediate | above | below => simp [Operand.Form.mark, isPlain]

/-- A simple word is no literal and no directive, and defines no label. -/
theorem of_isSimple {word : String} (hword : isSimple word = true) :
    Verbatim word ∧ word ≠ ".equ" ∧ labelOf? word = none := by
  unfold isSimple at hword
  rw [Bool.and_eq_true, List.all_eq_true] at hword
  obtain ⟨hplain, hhead⟩ := hword
  have hspecial {c : Char} (hc : isSpecial c = true) : c ∉ word.toList := by
    intro hmem
    rw [(isPlain_spec (hplain c hmem)).2.2] at hc
    cases hc
  refine ⟨⟨hspecial (by decide), fun hin => ?_⟩, ?_, ?_⟩
  · exact hspecial (c := '$') (by decide) (hin.mem List.mem_cons_self)
  · rintro rfl
    cases hhead
  · rw [Option.eq_none_iff_forall_ne_some]
    intro label hlabel
    have hlist := labelOf?_eq_some_iff.mp hlabel
    exact hspecial (c := ':') (by decide) (by simp [hlist])

/-! ## The readings abreast -/

/-- The words of an entry with their links, and their address: all but where they come from. -/
def placed (e : Entry) : Word × List Term := (e.ip, e.terms)

/-- Two assemblers that added the same words of the program to those of an earlier one, and
have its labels. -/
structure SameGrowth (start a a' : Assembler) : Prop where
  labels : a.labels = start.labels ∧ a'.labels = start.labels
  entries : ∃ es es', a.entries.toList = start.entries.toList ++ es ∧
    a'.entries.toList = start.entries.toList ++ es' ∧ es.map placed = es'.map placed

/-- Both readings succeed, or both fail, with their assemblers related. -/
inductive Alike (related : Assembler → Assembler → Prop) :
    EStateM.Result AssemblyError Assembler Unit →
      EStateM.Result AssemblyError Assembler Unit → Prop where
  | ok {a a' : Assembler} (h : related a a') : Alike related (.ok () a) (.ok () a')
  | error {a a' : Assembler} {e e' : AssemblyError} (h : related a a') :
    Alike related (.error e a) (.error e' a')

/-- The assembler that reads the lines of a macro with names bound, and the one that reads
them in place, behind as many lines. -/
structure Abreast (bindings : List (String × String)) (start inner outer : Assembler) :
    Prop where
  growth : SameGrowth start inner outer
  macros : inner.macros = start.macros ∧ outer.macros = start.macros
  equates : Operand.Binds bindings start.equates inner.equates outer.equates

section Abreast

variable {bindings : List (String × String)} {start inner outer : Assembler}

/-- The next word has the same address. -/
theorem SameGrowth.here_eq (h : SameGrowth start inner outer) : inner.here = outer.here := by
  have hlast (a : Assembler) : a.here = ((a.entries.toList.map placed).getLast?.map fun code =>
      code.1 + Int64.ofNat code.2.length).getD 0 := by
    unfold here
    rw [← Array.getLast?_toList, List.getLast?_map]
    cases a.entries.toList.getLast? with
    | none => rfl
    | some e => rfl
  obtain ⟨es, es', hes, hes', hsame⟩ := h.entries
  rw [hlast, hlast, hes, hes', List.map_append, List.map_append, hsame]

/-- The numbers of lines make no difference. -/
theorem Abreast.numbered (h : Abreast bindings start inner outer) (number number' : Nat) :
    Abreast bindings start (inner.numbered number) (outer.numbered number') := by
  have hother (a : Assembler) (number : Nat) (name : String) (hname : name ≠ lineName) :
      (a.numbered number).equates[name]? = a.equates[name]? := by
    unfold Assembler.numbered
    rw [Std.ExtTreeMap.getElem?_insert, if_neg (by simpa using Ne.symm hname)]
  refine ⟨⟨h.growth.labels, h.growth.entries⟩, h.macros, ?_, ?_, h.equates.known⟩
  · intro name hname
    rw [hother inner number name hname, h.equates.inner name hname]
  · intro name hname
    rw [hother outer number' name hname, h.equates.outer name hname]

/-- Entries of the same words keep the readings abreast. -/
theorem Abreast.added (h : Abreast bindings start inner outer) {e e' : Entry}
    (hcode : placed e = placed e') :
    Abreast bindings start (inner.added e) (outer.added e') := by
  obtain ⟨es, es', hes, hes', hsame⟩ := h.growth.entries
  refine ⟨⟨h.growth.labels, es ++ [e], es' ++ [e'], ?_, ?_, ?_⟩, h.macros, h.equates⟩
  · rw [Assembler.added, Array.toList_push, hes, List.append_assoc]
  · rw [Assembler.added, Array.toList_push, hes', List.append_assoc]
  · rw [List.map_append, List.map_append, hsame, List.map_singleton, List.map_singleton, hcode]

/-- Statements that are assembled alike are emitted alike. -/
theorem Abreast.emit (h : Abreast bindings start inner outer) {words words' : List String}
    (hagree : Agree (Instruction.assemble inner.equates words)
      (Instruction.assemble outer.equates words')) (number number' : Nat) :
    Alike (Abreast bindings start) ((emit number words).run inner)
      ((emit number' words').run outer) := by
  cases hinner : Instruction.assemble inner.equates words with
  | ok terms =>
    have houter := (hagree terms).mp hinner
    by_cases hterms : terms = []
    · subst hterms
      rw [run_emit_of_nil hinner, run_emit_of_nil houter]
      exact .ok h
    · rw [run_emit_of_ok hinner hterms, run_emit_of_ok houter hterms]
      refine .ok (h.added ?_)
      rw [placed, placed, h.growth.here_eq]
  | error e =>
    cases houter : Instruction.assemble outer.equates words' with
    | ok terms =>
      rw [(hagree terms).mpr houter] at hinner
      cases hinner
    | error e' =>
      rw [run_emit_of_error hinner, run_emit_of_error houter]
      exact .error h

end Abreast

/-! ## Calls that substitute -/

namespace Call

/-- The parameters of the macro with their arguments. -/
def bindings (c : Call) : List (String × String) := c.callee.params.zip c.args

/-- A word of the macro in which a parameter, bare or behind a mark, is replaced by its
argument. -/
def replaced (c : Call) (word : String) : String := Operand.replaced c.bindings word

/-- The call of a macro whose lines are plain, with plain arguments, where no equate gets in
the way. -/
structure Substitutes (c : Call) (a : Assembler) : Prop where
  count : c.args.length = c.callee.params.length
  distinct : c.callee.params.Nodup
  simple : ∀ arg ∈ c.args, isSimple arg = true
  apart : Operand.Apart c.bindings a.equates
  words : ∀ line ∈ c.callee.body.toList, ∀ word ∈ writtenWords line,
    Verbatim word ∧ '@' ∉ word.toList ∧ Operand.Clear c.bindings a.equates word
  /-- A line begins neither with a directive for equates nor with a label, nor with the name
  of a macro, whether parameters are equated or replaced. -/
  heads : ∀ line ∈ c.callee.body.toList, ∀ head, (writtenWords line).head? = some head →
    head ≠ ".equ" ∧ labelOf? head = none ∧
      a.macros[(bound c.bindings a).substitute head]? = none ∧
      a.macros[a.substitute (c.replaced head)]? = none

end Call

section Calls

variable {c : Call} {start inner outer : Assembler}

/-- A word of the macro is replaced by a word that can stand on a line in its place. -/
theorem Call.Substitutes.replaced_spec (h : c.Substitutes start) (word : String) :
    c.replaced word = word ∨ isSimple (c.replaced word) = true := by
  unfold Call.replaced Operand.replaced
  cases hlookup : c.bindings.lookup (Operand.parts word).2 with
  | none => exact .inl rfl
  | some text =>
    have hmem := Operand.mem_of_lookup hlookup
    exact .inr (isSimple_mark_append (h.simple text (List.of_mem_zip hmem).2) _)

/-- No parameter has two arguments. -/
theorem Call.Substitutes.nodup (h : c.Substitutes start) : (c.bindings.map Prod.fst).Nodup := by
  rw [Call.bindings, List.map_fst_zip (Nat.le_of_eq h.count.symm)]
  exact h.distinct

/-- With the parameters bound, a word is substituted as it is at the beginning of the call. -/
theorem Abreast.substitute_inner (h : Abreast c.bindings start inner outer)
    (hc : c.Substitutes start) {word : String} (hword : word ≠ lineName) :
    inner.substitute word = (bound c.bindings start).substitute word := by
  have hbound : (bound c.bindings start).equates[word]? =
      (c.bindings.lookup word).or start.equates[word]? :=
    Table.getElem?_foldl_insert_of_nodup hc.nodup start.equates word
  rw [substitute, substitute, hbound, h.equates.inner word hword]

/-- Outside of the call a word stands for what it did at its start. -/
private theorem Abreast.substitute_outer (h : Abreast c.bindings start inner outer) {word : String}
    (hword : word ≠ lineName) : outer.substitute word = start.substitute word := by
  rw [substitute, substitute, h.equates.outer word hword]

/-- One line of the macro: reading it with the parameters bound is alike to reading it in
place. -/
theorem Abreast.readLine (h : Abreast c.bindings start inner outer) (hc : c.Substitutes start)
    {line line' : String} (hline : line ∈ c.callee.body.toList)
    (hline' : writtenWords line' = (writtenWords line).map c.replaced)
    (depth depth' number number' : Nat) :
    Alike (Abreast c.bindings start) ((readLine depth number line).run inner)
      ((readLine depth' number' line').run outer) := by
  have hnumbered := h.numbered number number'
  have hwords := hc.words line hline
  have hclear : ∀ word ∈ writtenWords line, Operand.Clear c.bindings start.equates word :=
    fun word hword => (hwords word hword).2.2
  have hhead : ∀ head, (writtenWords line).head? = some head → head ≠ ".equ" ∧
      labelOf? head = none ∧ inner.macros[(inner.numbered number).substitute head]? = none := by
    intro head hhead
    obtain ⟨hequate, hlabel, hmacro, _⟩ := hc.heads line hline head hhead
    have hne := (hclear head (List.mem_of_head? hhead)).line
    rw [hnumbered.substitute_inner hc hne, h.macros.1]
    exact ⟨hequate, hlabel, hmacro⟩
  have hwords' : ∀ word ∈ writtenWords line', Verbatim word := by
    intro word hword
    rw [hline'] at hword
    obtain ⟨written, hwritten, rfl⟩ := List.mem_map.mp hword
    rcases hc.replaced_spec written with hsame | hsimple
    · rw [hsame]
      exact (hwords written hwritten).1
    · exact (of_isSimple hsimple).1
  have hhead' : ∀ head, (writtenWords line').head? = some head → head ≠ ".equ" ∧
      labelOf? head = none ∧ outer.macros[(outer.numbered number').substitute head]? = none := by
    intro head hhead
    rw [hline', List.head?_map] at hhead
    obtain ⟨written, hwritten, rfl⟩ := Option.map_eq_some_iff.mp hhead
    obtain ⟨hequate, hlabel, _, hmacro⟩ := hc.heads line hline written hwritten
    have hne := hnumbered.equates.replaced_ne (hclear written (List.mem_of_head? hwritten))
    have hsubstitute := hnumbered.substitute_outer hne
    refine ⟨?_, ?_, ?_⟩
    · rcases hc.replaced_spec written with hsame | hsimple
      · rwa [hsame]
      · exact (of_isSimple hsimple).2.1
    · rcases hc.replaced_spec written with hsame | hsimple
      · rwa [hsame]
      · exact (of_isSimple hsimple).2.2
    · rw [h.macros.2]
      exact hsubstitute ▸ hmacro
  rw [run_readLine_of_verbatim (fun word hword => (hwords word hword).1) hhead,
    run_readLine_of_verbatim hwords' hhead', hline']
  exact hnumbered.emit (Instruction.agree_of_binds hnumbered.equates hc.apart hclear) _ _

/-- The lines of the macro, one after the other. -/
theorem Abreast.readBody (h : Abreast c.bindings start inner outer) (hc : c.Substitutes start)
    {body : List String} (hbody : ∀ line ∈ body, line ∈ c.callee.body.toList)
    {lines : List (Nat × String)}
    (hlines : List.Forall₂ (fun line placed =>
      writtenWords placed.2 = (writtenWords line).map c.replaced) body lines)
    (depth depth' number : Nat) :
    Alike (Abreast c.bindings start)
      ((readBody (Assembler.readLine depth) c.name number body).run inner)
      ((forM lines fun line => Assembler.readLine depth' line.1 line.2).run outer) := by
  induction hlines generalizing inner outer number with
  | nil => exact .ok h
  | @cons line placed body lines hline hlines ih =>
    obtain ⟨hmem, hbody⟩ := List.forall_mem_cons.mp hbody
    have hlocal : localize c.name number line = line := by
      apply String.toList_injective
      rw [toList_localize, flatMap_localized_of_not_mem]
      refine not_mem_of_writtenWords (by decide) fun word hword => ?_
      exact (hc.words line hmem word hword).2.1
    have hfirst := h.readLine hc hmem hline depth depth' number placed.1
    rw [Assembler.readBody, hlocal, List.forM_cons, EStateM.run_bind, EStateM.run_bind,
      Course.run_within]
    generalize (Assembler.readLine depth number line).run inner = first at hfirst
    generalize (Assembler.readLine depth' placed.1 placed.2).run outer = second at hfirst
    cases hfirst with
    | ok hnext => exact ih hnext hbody (number + 1)
    | error hnext => exact .error hnext

end Calls

/-! ## The line of a call -/

/-- A statement that calls a macro leaves the assembler as it is. -/
theorem eq_of_openStatement {number : Nat} {rest : List String} {a b : Assembler} {c : Call}
    (hopen : (openStatement number rest).run a = .ok (some c) b) : b = a := by
  unfold openStatement at hopen
  rw [EStateM.run_bind, EStateM.run_get] at hopen
  dsimp only at hopen
  cases hstatement : rest.map a.substitute with
  | nil =>
    rw [hstatement] at hopen
    cases hopen
  | cons head args =>
    rw [hstatement] at hopen
    dsimp only at hopen
    cases hcallee : a.macros[head]? with
    | some m =>
      rw [hcallee] at hopen
      cases hopen
      rfl
    | none =>
      rw [hcallee] at hopen
      dsimp only at hopen
      rw [EStateM.run_bind] at hopen
      cases hemit : (emit number (head :: args)).run a with
      | ok x d =>
        rw [hemit] at hopen
        cases hopen
      | error e d =>
        rw [hemit] at hopen
        cases hopen

/-- Before a macro is called, its line notes its number and defines its labels. -/
theorem eq_of_opening {number : Nat} {line : String} {a b : Assembler} {c : Call}
    (hopen : (opening number line).run a = .ok (some c) b) :
    ∃ names, b = (a.numbered number).withLabels names := by
  rw [run_opening] at hopen
  cases hwords : (a.numbered number).wordsOf line with
  | error e =>
    rw [hwords] at hopen
    cases hopen
  | ok words =>
    rw [hwords] at hopen
    dsimp only at hopen
    by_cases hequate : words.head? = some ".equ"
    · obtain ⟨args, rfl⟩ := List.head?_eq_some_iff.mp hequate
      have hdefine : (openWords number (".equ" :: args)).run (a.numbered number) =
          (defineEquate args >>= fun _ => pure none).run (a.numbered number) := rfl
      rw [hdefine, EStateM.run_bind] at hopen
      cases hrun : (defineEquate args).run (a.numbered number) with
      | ok x d =>
        rw [hrun] at hopen
        cases hopen
      | error e d =>
        rw [hrun] at hopen
        cases hopen
    · rw [run_openWords_of_ne hequate, EStateM.run_bind] at hopen
      by_cases hnew : New (a.numbered number) (frontLabels words)
      · rw [run_defineLabels_of_new hnew] at hopen
        exact ⟨frontLabels words, eq_of_openStatement hopen⟩
      · obtain ⟨d, hd⟩ := run_defineLabels_of_not_new hnew
        rw [hd] at hopen
        cases hopen

/-- At the beginning of a call the readings are abreast. -/
theorem Abreast.refl {c : Call} {b : Assembler} (hc : c.Substitutes b)
    (hknown : b.equates[lineName]? ≠ none) : Abreast c.bindings b (bound c.bindings b) b where
  growth := ⟨⟨rfl, rfl⟩, [], [], by simp [bound], by simp, rfl⟩
  macros := ⟨rfl, rfl⟩
  equates := ⟨fun name _ => Table.getElem?_foldl_insert_of_nodup hc.nodup b.equates name,
    fun _ _ => rfl, hknown⟩

/-! ## Two macros

The equates of a source are known, so it can be seen that they do not get in the way of a
call, or that one of them does.
-/

/-- All equates of a table are in a list. -/
def Lists (pairs : List (String × String)) (table : Table String) : Prop :=
  ∀ name text, table[name]? = some text → (name, text) ∈ pairs

section Lists

variable {pairs : List (String × String)} {table : Table String}

/-- A table that was made of pairs has no others. -/
theorem lists_ofPairs (pairs : List (String × String)) : Lists pairs (Table.ofPairs pairs) := by
  intro name text hfound
  rcases Table.mem_or_of_getElem?_foldl_insert hfound with hmem | hold
  · exact hmem
  · rw [Std.ExtTreeMap.getElem?_empty] at hold
    cases hold

/-- The equates of two tables are those of the first and of the second one. -/
theorem Lists.override (h : Lists pairs table) {pairs' : List (String × String)}
    {winner : Table String} (h' : Lists pairs' winner) :
    Lists (pairs' ++ pairs) (table.override winner) := by
  intro name text hfound
  rcases Table.mem_or_of_getElem?_foldl_insert hfound with hmem | hold
  · have hnew := Std.ExtTreeMap.mem_toList_iff_getElem?_eq_some.mp hmem
    exact List.mem_append_left pairs (h' name text hnew)
  · exact List.mem_append_right pairs' (h name text hold)

/-- A name is added to those that were listed. -/
theorem Lists.insert (h : Lists pairs table) (name text : String) :
    Lists ((name, text) :: pairs) (table.insert name text) := by
  have hnew : ∀ name' text', ([(name, text)].foldl (fun table entry =>
      table.insert entry.1 entry.2) table)[name']? = some text' →
        (name', text') ∈ (name, text) :: pairs := by
    intro name' text' hfound
    rcases Table.mem_or_of_getElem?_foldl_insert hfound with hmem | hold
    · exact List.mem_cons.mpr (.inl (List.mem_singleton.mp hmem))
    · exact List.mem_cons_of_mem _ (h name' text' hold)
  exact hnew

/-- A name that is not listed has no text. -/
theorem Lists.eq_none (h : Lists pairs table) {name : String}
    (hname : (pairs.lookup name).isNone = true) : table[name]? = none := by
  by_contra hsome
  obtain ⟨text, htext⟩ := Option.ne_none_iff_exists'.mp hsome
  have hne := List.lookup_eq_none_iff.mp (Option.isNone_iff_eq_none.mp hname) _ (h name text htext)
  simp at hne

/-- Names that are not listed have no texts. -/
theorem Lists.eq_none_of_mem (h : Lists pairs table) {words : List String}
    (hwords : (words.all fun word => (pairs.lookup word).isNone) = true) :
    ∀ word ∈ words, table[word]? = none :=
  fun word hword => h.eq_none (List.all_eq_true.mp hwords word hword)

end Lists

/-- The equates of the instruction set. -/
def definePairs : List (String × String) :=
  [("OP_ADD", "1"), ("OP_MUL", "2"), ("OP_IN", "3"), ("OP_OUT", "4"), ("OP_JT", "5"),
    ("OP_JF", "6"), ("OP_LT", "7"), ("OP_EQ", "8"), ("OP_ARB", "9"), ("OP_HALT", "99"),
    ("MODE_POSITION", "0"), ("MODE_IMMEDIATE", "1"), ("MODE_RELATIVE", "2")]

/-- The equates of an assembler at the start of a source. -/
def freshPairs : List (String × String) := definePairs ++ [(lineName, "0")]

/-- An assembler that has read nothing has no other equates. -/
theorem lists_fresh : Lists freshPairs (fresh {}).equates := by
  have hdefines : Lists definePairs Instruction.defines := lists_ofPairs definePairs
  exact ((lists_ofPairs [(lineName, "0")]).override hdefines).override (lists_ofPairs [])

/-- The equates at a line of a source, behind definitions of `equates`. -/
def pairsAt (number : Nat) (equates : List (String × String)) : List (String × String) :=
  (lineName, Nat.repr number) :: (equates ++ freshPairs)

/-- At a line there are its number and the equates before it. -/
theorem lists_numbered {a : Assembler} (number : Nat) (equates : List (String × String))
    (h : Lists (equates ++ freshPairs) a.equates) :
    Lists (pairsAt number equates) (a.numbered number).equates :=
  h.insert lineName (Nat.repr number)

/-- An assembler that has read the definition of a macro. -/
def defined (m : Macro) : Assembler :=
  { fresh {} with macros := (∅ : Table Macro).insert "m" m }

/-- No other name is that of a macro. -/
theorem macros_defined (m : Macro) {name : String} (hname : name ≠ "m") :
    (defined m).macros[name]? = none := by
  unfold defined
  rw [Std.ExtTreeMap.getElem?_insert, if_neg (by simpa using Ne.symm hname)]
  exact Std.ExtTreeMap.getElem?_empty

/-- At the fifth line, behind the definition of a macro. -/
theorem lists_defined (m : Macro) : Lists (pairsAt 5 []) ((defined m).numbered 5).equates :=
  lists_numbered 5 [] lists_fresh

namespace Copying

/-- A macro that moves a value behind the relative base, and then writes the distance. -/
def callee : Macro := ⟨2, ["x", "y"], #["mov x, rb+y", "out #y"]⟩

/-- The call of the macro. -/
def call : Call := ⟨callee, "m", ["#3", "5"]⟩

/-- The assembler at the call. -/
def start : Assembler := (defined callee).numbered 5

/-- The line opens the call. -/
theorem run_opening : (opening 5 "m #3 5").run (defined callee) = .ok (some call) start := by
  have hwords : start.wordsOf "m #3 5" = .ok ["m", "#3", "5"] :=
    wordsOf_of_not_mem (by decide) (by decide) _
  exact run_opening_of_name hwords (by decide) rfl
    (Lists.eq_none_of_mem (lists_defined callee) (by decide))
    Std.ExtTreeMap.getElem?_insert_self

/-- The arguments have nothing to do with the equates. -/
theorem apart : Operand.Apart call.bindings start.equates where
  formals name text hname := by
    have hall : (call.bindings.all fun entry => Operand.isLabel entry.1) = true := by decide
    exact List.all_eq_true.mp hall _ (Operand.mem_of_lookup hname)
  texts name text hname word hword := by
    have hall : (call.bindings.all fun entry => [entry.2, (Operand.parts entry.2).2].all fun word =>
        ((pairsAt 5 []).lookup word).isNone && (call.bindings.lookup word).isNone) = true := by
      decide
    have htext := List.all_eq_true.mp hall _ (Operand.mem_of_lookup hname)
    have hnone := List.all_eq_true.mp htext word (by simpa using hword)
    rw [Bool.and_eq_true] at hnone
    exact ⟨Lists.eq_none (lists_defined callee) hnone.1, Option.isNone_iff_eq_none.mp hnone.2⟩
  equates name text hname := by
    have hall : ((pairsAt 5 []).all fun entry =>
        (call.bindings.lookup (Operand.parts entry.1).2).isNone &&
          (call.bindings.lookup (Operand.parts entry.2).2).isNone) = true := by decide
    have hnone := List.all_eq_true.mp hall _ ((lists_defined callee) name text hname)
    simpa using hnone

/-- No word of the macro has to do with an equate. -/
private theorem clear_of_mem {word : String} (hword : word ∈ ["mov", "x", "rb+y", "out", "#y"]) :
    Operand.Clear call.bindings start.equates word := by
  have hall : (["mov", "x", "rb+y", "out", "#y"].all fun word =>
      ((pairsAt 5 []).lookup word).isNone && ((pairsAt 5 []).lookup (call.replaced word)).isNone &&
        word != lineName && (Operand.parts word).2 != lineName) = true := by decide
  have hchecked := List.all_eq_true.mp hall word hword
  simp only [Bool.and_eq_true, bne_iff_ne] at hchecked
  obtain ⟨⟨⟨hnone, hreplaced⟩, hline⟩, hterm⟩ := hchecked
  have hunequated : start.equates[word]? = none := Lists.eq_none (lists_defined callee) hnone
  refine ⟨hline, ?_, fun _ => Lists.eq_none (lists_defined callee) hreplaced⟩
  rwa [hunequated]

/-- Neither line begins with an equate, a label or the name of the macro. -/
theorem head_of_mem {head : String} (hhead : head ∈ ["mov", "out"]) :
    head ≠ ".equ" ∧ labelOf? head = none ∧
      start.macros[(bound call.bindings start).substitute head]? = none ∧
      start.macros[start.substitute (call.replaced head)]? = none := by
  have hall : (["mov", "out"].all fun head => head != ".equ" && (labelOf? head).isNone &&
      head != "m" && call.replaced head == head && !(call.bindings.map Prod.fst).contains head &&
        ((pairsAt 5 []).lookup head).isNone) = true := by decide
  have hchecked := List.all_eq_true.mp hall head hhead
  simp only [Bool.and_eq_true, bne_iff_ne, beq_iff_eq, Bool.not_eq_true', List.contains_eq_mem,
    decide_eq_false_iff_not, Option.isNone_iff_eq_none (α := String)] at hchecked
  obtain ⟨⟨⟨⟨⟨hequate, hlabel⟩, hname⟩, hsame⟩, hformal⟩, hnone⟩ := hchecked
  have hunequated : start.equates[head]? = none :=
    Lists.eq_none (lists_defined callee) (by rw [hnone]; rfl)
  have hinner : (bound call.bindings start).equates[head]? = none :=
    (Table.getElem?_foldl_insert call.bindings start.equates hformal).trans hunequated
  refine ⟨hequate, hlabel, ?_, ?_⟩
  · rw [substitute, hinner]
    exact macros_defined callee hname
  · rw [hsame, substitute, hunequated]
    exact macros_defined callee hname

/-- The arguments can be put in the place of the parameters. -/
theorem substitutes : call.Substitutes start where
  count := rfl
  distinct := by decide
  simple := List.all_eq_true.mp (by decide)
  apart := apart
  words line hline word hword := by
    have hall : (callee.body.toList.all fun line => (writtenWords line).all fun word =>
        decide (Verbatim word) && !word.toList.contains '@' &&
          ["mov", "x", "rb+y", "out", "#y"].contains word) = true := by decide
    have hchecked := List.all_eq_true.mp (List.all_eq_true.mp hall line hline) word hword
    simp only [Bool.and_eq_true, decide_eq_true_eq, Bool.not_eq_true', List.contains_eq_mem,
      decide_eq_false_iff_not] at hchecked
    exact ⟨hchecked.1.1, hchecked.1.2, clear_of_mem hchecked.2⟩
  heads line hline head hhead := by
    have hall : (callee.body.toList.all fun line => (writtenWords line).head?.all fun head =>
        ["mov", "out"].contains head) = true := by decide
    have hchecked := List.all_eq_true.mp hall line hline
    rw [hhead, Option.all_some, List.contains_eq_mem, decide_eq_true_eq] at hchecked
    exact head_of_mem hchecked

end Copying

namespace Shadowing

/-- A macro that writes its parameter. -/
def callee : Macro := ⟨3, ["zz"], #["out #zz"]⟩

/-- The call of the macro. -/
def call : Call := ⟨callee, "m", ["5"]⟩

/-- An assembler that has read the definition of the macro, and of an equate with a mark in
its name. -/
def before : Assembler := { defined callee with equates := (fresh {}).equates.insert "#5" "7" }

/-- The assembler at the call. -/
def start : Assembler := before.numbered 5

/-- The equates at the call. -/
theorem lists_start : Lists (pairsAt 5 [("#5", "7")]) start.equates :=
  lists_numbered 5 _ (Lists.insert lists_fresh "#5" "7")

/-- The line opens the call. -/
theorem run_opening : (opening 5 "m 5").run before = .ok (some call) start := by
  have hwords : start.wordsOf "m 5" = .ok ["m", "5"] :=
    wordsOf_of_not_mem (by decide) (by decide) _
  exact run_opening_of_name hwords (by decide) rfl (Lists.eq_none_of_mem lists_start (by decide))
    Std.ExtTreeMap.getElem?_insert_self

/-- A value is put out as its operand says. -/
theorem assemble_out {equates : Table String} {word : String} {operand : Mode × Term}
    (hread : Operand.read equates word = .ok operand) :
    Instruction.assemble equates ["out", word] =
      .ok [⟨Instruction.encode .output [operand.1], none⟩, operand.2] := by
  change Instruction.assembleOperation equates .output [word] = _
  rw [Instruction.assembleOperation_eq_ok_iff]
  exact ⟨[operand], .cons hread .nil, rfl, fun h => absurd h (by decide), rfl⟩

/-- The assembler in the call, at the line of the macro. -/
def inner : Assembler := (bound call.bindings start).numbered 3

/-- The equates at the line of the macro. -/
private theorem lists_inner : Lists
    (pairsAt 3 [("zz", "5"), (lineName, "5"), ("#5", "7")]) inner.equates :=
  lists_numbered 3 _ (Lists.insert lists_start "zz" "5")

/-- In the call the parameter is a value. -/
theorem run_call : (readLine 1 5 "m 5").run before =
    .ok () (unbound start (inner.added ⟨3, 0, ["out", "#zz"], [⟨104, none⟩, ⟨5, none⟩]⟩)) := by
  have hwords : inner.wordsOf "out #zz" = .ok ["out", "#zz"] :=
    wordsOf_of_not_mem (by decide) (by decide) _
  have hunbound : ∀ word ∈ ["out", "#zz"], inner.equates[word]? = none :=
    Lists.eq_none_of_mem lists_inner (by decide)
  have hparameter : inner.equates["zz"]? = some "5" := by
    have hbound : (bound call.bindings start).equates["zz"]? = some "5" :=
      Std.ExtTreeMap.getElem?_insert_self
    change ((bound call.bindings start).equates.insert lineName "3")["zz"]? = some "5"
    rw [Std.ExtTreeMap.getElem?_insert, if_neg (by decide), hbound]
  have hread : Operand.read inner.equates "#zz" = .ok (.immediate, ⟨5, none⟩) := by
    rw [Operand.read_eq (by decide)]
    change Operand.resolve inner.equates "zz" >>= _ = _
    rw [Operand.resolve, hparameter]
    rfl
  have hline : (readLine 0 3 "out #zz").run (bound call.bindings start) =
      .ok () (inner.added ⟨3, 0, ["out", "#zz"], [⟨104, none⟩, ⟨5, none⟩]⟩) :=
    Once.run_localLine hwords (by decide) (run_defineLabels_of_none rfl _ _) hunbound
      (macros_defined callee (by decide)) (assemble_out hread) (List.cons_ne_nil _ _)
  have hbody : (readBody (readLine 0) "m" 3 ["out #zz"]).run (bound call.bindings start) =
      .ok () (inner.added ⟨3, 0, ["out", "#zz"], [⟨104, none⟩, ⟨5, none⟩]⟩) := by
    have hlocal : localize "m" 3 "out #zz" = "out #zz" := by decide
    rw [readBody, hlocal, EStateM.run_bind, Course.run_within, hline]
    rfl
  rw [readLine, readLineWith_eq_bind, EStateM.run_bind, run_opening]
  dsimp only
  rw [performCall, callWith, if_neg (by decide)]
  change (withEquates call.bindings (readBody (readLine 0) "m" 3 ["out #zz"])).run start = _
  rw [Course.run_withEquates, hbody]

/-- In place the parameter belongs to the name of the equate. -/
theorem run_in_place : (readLine 1 5 "out #5").run start =
    .ok () ((start.numbered 5).added ⟨5, 0, ["out", "7"], [⟨4, none⟩, ⟨7, none⟩]⟩) := by
  have hlists : Lists (pairsAt 5 [(lineName, "5"), ("#5", "7")]) (start.numbered 5).equates :=
    lists_numbered 5 _ lists_start
  have hwords : (start.numbered 5).wordsOf "out #5" = .ok ["out", "#5"] :=
    wordsOf_of_not_mem (by decide) (by decide) _
  have hequate : (start.numbered 5).equates["#5"]? = some "7" := by
    change (((before.equates).insert lineName "5").insert lineName "5")["#5"]? = some "7"
    rw [Std.ExtTreeMap.getElem?_insert, if_neg (by decide), Std.ExtTreeMap.getElem?_insert,
      if_neg (by decide)]
    exact Std.ExtTreeMap.getElem?_insert_self
  have hstatement : ["out", "#5"].map (start.numbered 5).substitute = ["out", "7"] := by
    rw [List.map_cons, List.map_cons, List.map_nil, substitute, substitute, hequate,
      hlists.eq_none (by decide)]
    rfl
  have hread : Operand.read (start.numbered 5).equates "7" = .ok (.position, ⟨7, none⟩) := by
    rw [Operand.read_eq (by decide)]
    change Operand.resolve (start.numbered 5).equates "7" >>= _ = _
    rw [Operand.resolve, hlists.eq_none (by decide)]
    rfl
  obtain ⟨_, hcall⟩ := exists_readLine_eq 1
  rw [hcall, run_readLineWith hwords (by decide) (run_defineLabels_of_none rfl _ _) hstatement
    (macros_defined callee (by decide))]
  exact run_emit_of_ok (assemble_out hread) (List.cons_ne_nil _ _)

end Shadowing

/-- The call of a macro is substitution. Let the line of a call be opened, which defines its
labels and adds no entry, and let no equate get in the way. Take lines whose words are those of
the macro, with the parameters replaced by the arguments. The call succeeds if and only if
these lines can be read in its place, and in any case it adds the same words of the program at
the same addresses, with the same links. -/
theorem readLine_call_substitutes {number : Nat} {line : String} {a b : Assembler} {c : Call}
    (hopen : (opening number line).run a = .ok (some c) b) (hc : c.Substitutes b)
    {lines : List (Nat × String)}
    (hlines : List.Forall₂ (fun written line =>
      writtenWords line.2 = (writtenWords written).map c.replaced) c.callee.body.toList lines)
    (depth depth' : Nat) :
    b.entries = a.entries ∧
      Alike (SameGrowth b) ((readLine (depth + 1) number line).run a)
        ((forM lines fun line => readLine depth' line.1 line.2).run b) := by
  obtain ⟨names, hb⟩ := eq_of_opening hopen
  have hknown : b.equates[lineName]? ≠ none := by
    have hline : b.equates[lineName]? = some (Nat.repr number) := by
      rw [hb]
      exact Std.ExtTreeMap.getElem?_insert_self
    rw [hline]
    exact Option.some_ne_none _
  refine ⟨by rw [hb]; rfl, ?_⟩
  have hbody := (Abreast.refl hc hknown).readBody hc (fun _ h => h) hlines depth depth'
    c.callee.line
  rw [readLine, readLineWith_eq_bind, EStateM.run_bind, hopen]
  dsimp only
  rw [performCall, callWith, if_neg (by simp [hc.count])]
  change Alike _ ((withEquates c.bindings _).run b) _
  rw [Course.run_withEquates]
  generalize (readBody (readLine depth) c.name c.callee.line c.callee.body.toList).run
    (bound c.bindings b) = first at hbody ⊢
  generalize (forM lines fun line => readLine depth' line.1 line.2).run b = second at hbody ⊢
  -- The parameters are forgotten, whether the lines could be read or not.
  cases hbody with
  | ok h => exact .ok ⟨h.growth.labels, h.growth.entries⟩
  | error h => exact .error ⟨h.growth.labels, h.growth.entries⟩

/-- The lines of a macro with two parameters in the place of its call. -/
theorem readLine_call_substitutes_copying :
    (opening 5 "m #3 5").run (defined Copying.callee) = .ok (some Copying.call) Copying.start ∧
      Copying.call.Substitutes Copying.start ∧
      Alike (SameGrowth Copying.start) ((readLine 1 5 "m #3 5").run (defined Copying.callee))
        ((forM [(5, "mov #3 rb+5"), (6, "out #5")] fun line =>
          readLine 1 line.1 line.2).run Copying.start) := by
  refine ⟨Copying.run_opening, Copying.substitutes, ?_⟩
  have hlines : List.Forall₂ (fun written line =>
      writtenWords line.2 = (writtenWords written).map Copying.call.replaced)
      Copying.callee.body.toList [(5, "mov #3 rb+5"), (6, "out #5")] :=
    .cons (by decide) (.cons (by decide) .nil)
  exact (readLine_call_substitutes Copying.run_opening Copying.substitutes hlines 0 1).2

/-- An equate may be named like an argument behind a mark. Then the parameter behind that mark
is not what the argument is in its place, although neither the argument nor the parameter has
anything to do with an equate. -/
theorem call_differs_in_place :
    (opening 5 "m 5").run Shadowing.before = .ok (some Shadowing.call) Shadowing.start ∧
      Shadowing.callee.params = ["zz"] ∧ Shadowing.callee.body = #["out #zz"] ∧
      Shadowing.call.args = ["5"] ∧ Operand.isLabel "zz" = true ∧
      Shadowing.start.equates["5"]? = none ∧ Shadowing.start.macros["out"]? = none ∧
      (∀ name text : String, Shadowing.start.equates[name]? = some text →
        ¬ "zz".toList <:+: name.toList ∧ ¬ "zz".toList <:+: text.toList) ∧
      (writtenWords "out #zz").map Shadowing.call.replaced = writtenWords "out #5" ∧
      ¬ Alike (SameGrowth Shadowing.start) ((readLine 1 5 "m 5").run Shadowing.before)
        ((forM [(5, "out #5")] fun line => readLine 1 line.1 line.2).run Shadowing.start) := by
  have hall : ((pairsAt 5 [("#5", "7")]).all fun entry =>
      decide (¬ "zz".toList <:+: entry.1.toList) &&
        decide (¬ "zz".toList <:+: entry.2.toList)) = true := by decide
  refine ⟨Shadowing.run_opening, rfl, rfl, rfl, by decide,
    Shadowing.lists_start.eq_none (by decide), macros_defined Shadowing.callee (by decide), ?_,
    by decide, ?_⟩
  · intro name text hfound
    have hentry := List.all_eq_true.mp hall _ (Shadowing.lists_start name text hfound)
    simpa only [Bool.and_eq_true, decide_eq_true_eq] using hentry
  · intro halike
    have hplace : (forM [(5, "out #5")] fun line : Nat × String =>
        readLine 1 line.1 line.2).run Shadowing.start = .ok () ((Shadowing.start.numbered 5).added
          ⟨5, 0, ["out", "7"], [⟨4, none⟩, ⟨7, none⟩]⟩) := by
      rw [List.forM_cons, EStateM.run_bind, Shadowing.run_in_place]
      rfl
    rw [Shadowing.run_call, hplace] at halike
    cases halike with
    | ok h =>
      obtain ⟨es, es', hes, hes', hsame⟩ := h.entries
      have hcall : es = [⟨3, 0, ["out", "#zz"], [⟨104, none⟩, ⟨5, none⟩]⟩] := hes.symm
      have hhere : es' = [⟨5, 0, ["out", "7"], [⟨4, none⟩, ⟨7, none⟩]⟩] := hes'.symm
      rw [hcall, hhere] at hsame
      exact absurd hsame (by decide)

end Assembler

end TapeMachine
