import TapeMachine.Proofs.PlainLines

/-!
# Expansion

A source is expanded into the lines that are read one after the other: its own lines
outside of macros, and behind a line that calls a macro the lines of that macro. Every
line is visited with the assembler as it is then. Labels and entries come from the
lines that are visited and from nothing else, so they are the same at the end of one
visit and at the beginning of the next one. The first line that fails is the last one
that is visited, and its error is the one of the whole reading.
-/

namespace TapeMachine

namespace AssemblyError

/-- An error without the lines on which it happened. -/
def root : AssemblyError → AssemblyError
  | inMacro _ _ cause => cause.root
  | atLine _ _ cause => cause.root
  | e => e

/-- Whether an error concerns a label. -/
def concernsLabel (e : AssemblyError) : Bool :=
  match e.root with
  | labelDuplicate | labelMissing _ => true
  | _ => false

/-- Whether an error is about a label depends on its root. -/
theorem concernsLabel_congr {e e' : AssemblyError} (hroot : e'.root = e.root) :
    e'.concernsLabel = e.concernsLabel := by
  unfold concernsLabel
  rw [hroot]

end AssemblyError

namespace Assembler

open Course (bound unbound)

variable {α β : Type}

/-! ## Lines up to the call of a macro -/

/-- A call: the macro, the name by which it is called, and its arguments. -/
structure Call where
  callee : Macro
  name : String
  args : List String

/-- Reads what follows the labels of a line, up to the call of a macro. -/
def openStatement (number : Nat) (rest : List String) : Pass (Option Call) := do
  let a ← get
  match rest.map a.substitute with
  | [] => return none
  | head :: args =>
    match a.macros[head]? with
    | none =>
      emit number (head :: args)
      return none
    | some m => return some ⟨m, head, args⟩

/-- Reads the words of a line up to the call of a macro. -/
def openWords (number : Nat) : List String → Pass (Option Call)
  | [] => return none
  | ".equ" :: args => do
    defineEquate args
    return none
  | words => do openStatement number (← defineLabels words)

/-- Reads a line up to the call of a macro. -/
def opening (number : Nat) (line : String) : Pass (Option Call) := do
  setLine number
  openWords number (← readWords line)

/-- What is left of a line once it is opened. -/
def performCall (call : Macro → String → List String → Pass Unit) : Option Call → Pass Unit
  | none => return
  | some c => call c.callee c.name c.args

/-- A line is opened, and then the macro on it is called. -/
theorem readLineWith_eq_bind (call : Macro → String → List String → Pass Unit) (number : Nat)
    (line : String) :
    readLineWith call number line = opening number line >>= performCall call := by
  unfold readLineWith opening openWords
  simp only [liftM_pass, bind_assoc]
  congr 1
  funext _
  congr 1
  funext words
  split
  · rfl
  · simp only [bind_assoc, pure_bind, performCall, bind_pure_unit]
  · unfold openStatement
    simp only [bind_assoc]
    congr 1
    funext rest
    congr 1
    funext a
    generalize rest.map a.substitute = statement
    cases statement with
    | nil => rfl
    | cons head args =>
      dsimp only
      cases a.macros[head]? with
      | none => simp only [bind_assoc, pure_bind, performCall, bind_pure_unit]
      | some m => rfl

/-! ## Visits -/

/-- A written line as it is read. In a macro that is called by a name, local names are made
distinct. -/
def lineIn (scope : Option String) (number : Nat) (written : String) : String :=
  match scope with
  | none => written
  | some name => localize name number written

/-- A line that is about to be read, and the assembler that reads it. -/
structure Visit where
  scope : Option String
  number : Nat
  written : String
  before : Assembler

/-- The line that is read, with local names where it stands in a macro. -/
def Visit.line (v : Visit) : String := lineIn v.scope v.number v.written

/-- How the visit begins: the line is read up to the call of a macro. -/
def Visit.opened (v : Visit) : EStateM.Result AssemblyError Assembler (Option Call) :=
  (opening v.number v.line).run v.before

/-- The visits of one part of the reading, and then those of the next part, unless the
first one fails. -/
def thenVisits (visits : List Visit) (outcome : EStateM.Result AssemblyError Assembler α)
    (next : α → Assembler → List Visit) : List Visit :=
  match outcome with
  | .ok x b => visits ++ next x b
  | .error _ _ => visits

/-- The visits of the lines of a macro. -/
def visitsOfBody (read : Nat → String → Pass Unit) (visits : Nat → String → Assembler → List Visit)
    (name : String) : Nat → List String → Assembler → List Visit
  | _, [], _ => []
  | number, line :: lines, a =>
    thenVisits (visits number line a) ((read number (localize name number line)).run a)
      fun _ b => visitsOfBody read visits name (number + 1) lines b

/-- The visits of a call. -/
def visitsOfCall (read : Nat → String → Pass Unit)
    (visits : String → Nat → String → Assembler → List Visit) (c : Call) (a : Assembler) :
    List Visit :=
  if c.args.length ≠ c.callee.params.length then []
  else
    visitsOfBody read (visits c.name) c.name c.callee.line c.callee.body.toList
      (bound (c.callee.params.zip c.args) a)

/-- The visit of a line, and then those of the call on it. -/
def visitsBehind (v : Visit) (next : Call → Assembler → List Visit) : List Visit :=
  match v.opened with
  | .ok (some c) b => v :: next c b
  | _ => [v]

/-- The visits of a line on which macros may call each other up to a depth. -/
def visitsOfLine : (depth : Nat) → Option String → Nat → String → Assembler → List Visit
  | 0, scope, number, line, a =>
    visitsBehind ⟨scope, number, line, a⟩
      (visitsOfCall (fun _ _ => throw .macroDepth) fun _ _ _ _ => [])
  | depth + 1, scope, number, line, a =>
    visitsBehind ⟨scope, number, line, a⟩
      (visitsOfCall (readLine depth) fun name => visitsOfLine depth (some name))

/-- The visits of a line of the source. The lines of an open macro and those at its ends are
not read. -/
def visitsOfSourceLine (number : Nat) (line : String) (opened : Option String) (a : Assembler) :
    List Visit :=
  let first := ((Text.fields line.toList).map String.ofList).head?
  if first = some ".macro" ∨ first = some ".endm" ∨ opened.isSome then []
  else visitsOfLine maxDepth none number line a

/-- The visits of lines, one after the other, as far as they are read. -/
def visitsOfLines : Position → List String → Assembler → List Visit
  | _, [], _ => []
  | p, line :: lines, a =>
    let number := p.number + 1
    let line := stripped line
    thenVisits (visitsOfSourceLine number line p.opened a)
      ((readSourceLine number line p.opened).run a)
      fun opened b => visitsOfLines ⟨number, line, opened⟩ lines b

/-- The visits of a source: all lines that are read, in this order. -/
def visits (source : Source) (a : Assembler) : List Visit := visitsOfLines {} source.lines a.fresh

/-- What was visited before is among the visits. -/
theorem mem_thenVisits_left {v : Visit} {vs : List Visit} (hv : v ∈ vs)
    (outcome : EStateM.Result AssemblyError Assembler α) (next : α → Assembler → List Visit) :
    v ∈ thenVisits vs outcome next := by
  cases outcome with
  | ok x b => exact List.mem_append_left _ hv
  | error e b => exact hv

/-- What is visited behind a step that succeeds is among the visits. -/
theorem mem_thenVisits_right {v : Visit} {outcome : EStateM.Result AssemblyError Assembler α}
    {x : α} {b : Assembler} (houtcome : outcome = .ok x b) {next : α → Assembler → List Visit}
    (hv : v ∈ next x b) (vs : List Visit) : v ∈ thenVisits vs outcome next := by
  subst houtcome
  exact List.mem_append_right _ hv

/-- A line is visited itself. -/
theorem mem_visitsOfLine (depth : Nat) (scope : Option String) (number : Nat) (line : String)
    (a : Assembler) : ⟨scope, number, line, a⟩ ∈ visitsOfLine depth scope number line a := by
  have hself (v : Visit) (next : Call → Assembler → List Visit) : v ∈ visitsBehind v next := by
    unfold visitsBehind
    split
    · exact List.mem_cons_self
    · exact List.mem_singleton_self v
  cases depth with
  | zero => exact hself _ _
  | succ depth => exact hself _ _

/-! ## What happens from visit to visit -/

/-- Two assemblers have the same labels and entries. -/
structure SameProgram (a b : Assembler) : Prop where
  labels : b.labels = a.labels
  entries : b.entries = a.entries

/-- Every assembler has its own program. -/
theorem SameProgram.refl (a : Assembler) : SameProgram a a := ⟨rfl, rfl⟩

/-- Having the same program is transitive. -/
theorem SameProgram.trans {a b c : Assembler} (hab : SameProgram a b) (hbc : SameProgram b c) :
    SameProgram a c :=
  ⟨hbc.labels.trans hab.labels, hbc.entries.trans hab.entries⟩

/-- Visits from a state on to an outcome. Between them the program stays the same, and
what fails there concerns no label. -/
inductive Chronicle : Assembler → List Visit → EStateM.Result AssemblyError Assembler α → Prop where
  | done {a b : Assembler} {x : α} (hsame : SameProgram a b) : Chronicle a [] (.ok x b)
  | fail {a b : Assembler} {e : AssemblyError} (hother : e.concernsLabel = false) :
    Chronicle a [] (.error e b)
  /-- A line is opened, and the visits go on. -/
  | line {a b : Assembler} {v : Visit} {c : Option Call} {vs : List Visit}
    {outcome : EStateM.Result AssemblyError Assembler α} (hsame : SameProgram a v.before)
    (hopened : v.opened = .ok c b) (hrest : Chronicle b vs outcome) : Chronicle a (v :: vs) outcome
  /-- A line cannot be opened, and with it the reading fails. -/
  | stop {a b b' : Assembler} {v : Visit} {e e' : AssemblyError} (hsame : SameProgram a v.before)
    (hopened : v.opened = .error e b) (hroot : e'.root = e.root) : Chronicle a [v] (.error e' b')

/-- A chronicle may begin with a step that leaves the program alone. -/
theorem Chronicle.of_same {a b : Assembler} {vs : List Visit}
    {outcome : EStateM.Result AssemblyError Assembler α} (hsame : SameProgram a b)
    (h : Chronicle b vs outcome) : Chronicle a vs outcome := by
  cases h with
  | done hsame' => exact .done (hsame.trans hsame')
  | fail hother => exact .fail hother
  | line hsame' hopened hrest => exact .line (hsame.trans hsame') hopened hrest
  | stop hsame' hopened hroot => exact .stop (hsame.trans hsame') hopened hroot

/-- The visits of a part of the reading, from whatever state on. -/
def Chronicled (p : Pass α) (visits : Assembler → List Visit) : Prop :=
  ∀ a, Chronicle a (visits a) (p.run a)

/-- Returning a value visits nothing. -/
theorem Chronicled.pure (x : α) : Chronicled (pure x : Pass α) fun _ => [] :=
  fun a => .done (.refl a)

/-- Failing for another reason than a label visits nothing. -/
theorem Chronicled.throw {e : AssemblyError} (hother : e.concernsLabel = false) :
    Chronicled (throw e : Pass α) fun _ => [] :=
  fun _ => .fail hother

/-- A chronicle goes on where another ended. -/
theorem Chronicle.append {a b : Assembler} {vs ws : List Visit} {x : α}
    {outcome : EStateM.Result AssemblyError Assembler β} (hfirst : Chronicle a vs (.ok x b))
    (hsecond : Chronicle b ws outcome) : Chronicle a (vs ++ ws) outcome := by
  generalize hx : EStateM.Result.ok x b = first at hfirst
  induction hfirst with
  | done hsame =>
    cases hx
    exact hsecond.of_same hsame
  | fail _ => cases hx
  | line hsame hopened _ ih => exact .line hsame hopened (ih hx)
  | stop _ _ _ => cases hx

/-- A failure ends the visits, whatever would have followed. -/
theorem Chronicle.error {a b b' : Assembler} {vs : List Visit} {e e' : AssemblyError}
    (h : Chronicle a vs (.error e b : EStateM.Result AssemblyError Assembler α))
    (hroot : e'.root = e.root) :
    Chronicle a vs (.error e' b' : EStateM.Result AssemblyError Assembler β) := by
  generalize hx : EStateM.Result.error e b = first at h
  induction h with
  | done _ => cases hx
  | fail hother =>
    cases hx
    exact .fail ((AssemblyError.concernsLabel_congr hroot).trans hother)
  | line hsame hopened _ ih => exact .line hsame hopened (ih hx)
  | stop hsame hopened hroot' =>
    cases hx
    exact .stop hsame hopened (hroot.trans hroot')

/-- Steps are chronicled one after the other. -/
theorem Chronicled.bind {p : Pass α} {f : α → Pass β} {vs : Assembler → List Visit}
    {next : α → Assembler → List Visit} (hp : Chronicled p vs)
    (hf : ∀ x, Chronicled (f x) (next x)) :
    Chronicled (p >>= f) fun a => thenVisits (vs a) (p.run a) next := by
  intro a
  have hfirst := hp a
  dsimp only
  rw [EStateM.run_bind]
  cases hrun : p.run a with
  | ok x b =>
    rw [hrun] at hfirst
    exact hfirst.append (hf x b)
  | error e b =>
    rw [hrun] at hfirst
    exact hfirst.error rfl

/-- A context for errors leaves the chronicle as it is. -/
theorem Chronicled.within {p : Pass α} {vs : Assembler → List Visit} (hp : Chronicled p vs)
    (context : AssemblyError → AssemblyError) (hcontext : ∀ e, (context e).root = e.root) :
    Chronicled (within context p) vs := by
  intro a
  have hfirst := hp a
  rw [Course.run_within]
  cases hrun : p.run a with
  | ok x b =>
    rw [hrun] at hfirst
    exact hfirst
  | error e b =>
    rw [hrun] at hfirst
    exact hfirst.error (hcontext e)

/-- Equates for the time of a computation leave its chronicle as it is. -/
theorem Chronicled.withEquates {p : Pass Unit} {vs : Assembler → List Visit}
    (hp : Chronicled p vs) (bindings : List (String × String)) :
    Chronicled (withEquates bindings p) fun a => vs (bound bindings a) := by
  intro a
  have hbound : SameProgram a (bound bindings a) := ⟨rfl, rfl⟩
  have hfirst := (hp (bound bindings a)).of_same hbound
  rw [Course.run_withEquates]
  cases hrun : p.run (bound bindings a) with
  | ok x b =>
    rw [hrun] at hfirst
    have hforget : Chronicle b [] (.ok x (unbound a b)) := .done ⟨rfl, rfl⟩
    simpa using hfirst.append hforget
  | error e b =>
    rw [hrun] at hfirst
    exact hfirst.error rfl

/-- To return something else needs no visit. -/
theorem Chronicled.andReturn {p : Pass α} {vs : Assembler → List Visit} (hp : Chronicled p vs)
    (f : α → β) : Chronicled (p >>= fun x => Pure.pure (f x)) vs := by
  intro a
  have hboth := hp.bind (fun x => Chronicled.pure (f x)) a
  dsimp only at hboth
  unfold thenVisits at hboth
  cases hrun : p.run a with
  | ok x b => simpa only [hrun, List.append_nil] using hboth
  | error e b => simpa only [hrun] using hboth

/-! ## The visits of each part of the reading -/

/-- A context for errors leaves the visits as they are. -/
theorem thenVisits_within (context : AssemblyError → AssemblyError) (p : Pass α) (a : Assembler)
    (vs : List Visit) (next : α → Assembler → List Visit) :
    thenVisits vs ((within context p).run a) next = thenVisits vs (p.run a) next := by
  rw [Course.run_within]
  cases p.run a with
  | ok x b => rfl
  | error e b => rfl

/-- A body is chronicled if its lines are. -/
theorem chronicled_readBody {read : Nat → String → Pass Unit}
    {visits : Nat → String → Assembler → List Visit} {name : String}
    (hread : ∀ number line,
      Chronicled (read number (localize name number line)) (visits number line))
    (number : Nat) (lines : List String) :
    Chronicled (readBody read name number lines) (visitsOfBody read visits name number lines) := by
  induction lines generalizing number with
  | nil => exact .pure ()
  | cons line lines ih =>
    intro a
    have hline := (hread number line).within
      (fun e => .atLine number (localize name number line) (.inMacro name number e)) fun _ => rfl
    have hboth := hline.bind (fun _ => ih (number + 1)) a
    dsimp only at hboth
    rwa [thenVisits_within] at hboth

/-- A call is chronicled if the lines of its body are. -/
theorem chronicled_callWith {read : Nat → String → Pass Unit}
    {visits : String → Nat → String → Assembler → List Visit}
    (hread : ∀ name number line,
      Chronicled (read number (localize name number line)) (visits name number line)) (c : Call) :
    Chronicled (callWith read c.callee c.name c.args) (visitsOfCall read visits c) := by
  intro a
  unfold callWith visitsOfCall
  by_cases hlength : c.args.length ≠ c.callee.params.length
  · rw [if_pos hlength, if_pos hlength]
    exact Chronicled.throw rfl a
  · rw [if_neg hlength, if_neg hlength]
    exact (chronicled_readBody (hread c.name) c.callee.line _).withEquates _ a

/-- A line is chronicled if the calls that it makes are. -/
theorem chronicle_readLineWith {call : Macro → String → List String → Pass Unit}
    {next : Call → Assembler → List Visit}
    (hcall : ∀ c, Chronicled (call c.callee c.name c.args) (next c)) (v : Visit) :
    Chronicle v.before (visitsBehind v next)
      ((readLineWith call v.number v.line).run v.before) := by
  rw [readLineWith_eq_bind, EStateM.run_bind]
  have hrun : (opening v.number v.line).run v.before = v.opened := rfl
  rw [hrun]
  unfold visitsBehind
  cases hopened : v.opened with
  | error e b => exact .stop (.refl _) hopened rfl
  | ok c b =>
    cases c with
    | none => exact .line (.refl _) hopened (.done (.refl b))
    | some c => exact .line (.refl _) hopened (hcall c b)

/-- A line is chronicled at every depth. -/
theorem chronicled_readLine (depth : Nat) (scope : Option String) (number : Nat)
    (written : String) :
    Chronicled (readLine depth number (lineIn scope number written))
      (visitsOfLine depth scope number written) := by
  -- As for the reading itself, the lines of a macro are visited one level deeper.
  induction depth generalizing scope number written with
  | zero =>
    have hrefused (name : String) (number : Nat) (line : String) :
        Chronicled (throw .macroDepth : Pass Unit) fun _ => [] := .throw rfl
    exact fun a => chronicle_readLineWith (chronicled_callWith hrefused) ⟨scope, number, written, a⟩
  | succ depth ih =>
    have hcall := chronicled_callWith fun name => ih (some name)
    exact fun a => chronicle_readLineWith hcall ⟨scope, number, written, a⟩

/-- The definition of a macro visits nothing. -/
private theorem chronicled_openMacro (number : Nat) (args : List String) :
    Chronicled (openMacro number args) fun _ => [] := by
  intro a
  cases args with
  | nil => exact .fail rfl
  | cons name params =>
    unfold openMacro
    simp only [EStateM.run_bind, EStateM.run_get]
    by_cases hknown : a.macros.contains name = true
    · rw [if_pos hknown]
      exact .fail rfl
    · rw [if_neg hknown]
      exact .done ⟨rfl, rfl⟩

/-- A line of a definition visits nothing. -/
private theorem chronicled_extendMacro (name line : String) :
    Chronicled (extendMacro name line) fun _ => [] :=
  fun _ => .done ⟨rfl, rfl⟩

/-- A line of a source is chronicled. -/
theorem chronicled_readSourceLine (number : Nat) (line : String) (opened : Option String) :
    Chronicled (readSourceLine number line opened) (visitsOfSourceLine number line opened) := by
  intro a
  unfold readSourceLine visitsOfSourceLine
  generalize (Text.fields line.toList).map String.ofList = words
  split
  case h_1 args =>
    rw [if_pos (.inl rfl)]
    by_cases hopened : opened.isSome = true
    · rw [if_pos hopened]
      exact .fail rfl
    · rw [if_neg hopened]
      exact (chronicled_openMacro number args).andReturn some a
  case h_2 =>
    rw [if_pos (.inr (.inl rfl))]
    by_cases hopened : opened.isNone = true
    · rw [if_pos hopened]
      exact .fail rfl
    · rw [if_neg hopened]
      exact .done (.refl a)
  case h_3 hopens hcloses =>
    cases opened with
    | some name =>
      rw [if_pos (.inr (.inr rfl))]
      exact (chronicled_extendMacro name line).andReturn (fun _ => some name) a
    | none =>
      have hread : ¬ (words.head? = some ".macro" ∨ words.head? = some ".endm" ∨
          (none : Option String).isSome = true) := by
        simpa [List.head?_eq_some_iff] using And.intro hopens hcloses
      rw [if_neg hread]
      exact (chronicled_readLine maxDepth none number line).andReturn (fun _ => none) a

/-- Lines of a source are chronicled. -/
theorem chronicled_readLines (p : Position) (lines : List String) :
    Chronicled (readLines p lines) (visitsOfLines p lines) := by
  induction lines generalizing p with
  | nil => exact .pure p
  | cons line lines ih =>
    intro a
    have hline := (chronicled_readSourceLine (p.number + 1) (stripped line) p.opened).within
      (.atLine (p.number + 1) (stripped line)) fun _ => rfl
    have hboth := hline.bind (fun opened => ih ⟨p.number + 1, stripped line, opened⟩) a
    dsimp only at hboth
    rwa [thenVisits_within] at hboth

end Assembler

end TapeMachine
