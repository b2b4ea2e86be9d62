import TapeMachine.Proofs.DefinedLabels

/-!
# The lines of a source

A macro keeps its lines together with the number of the first one. So every line that is
read, in a macro or not, is a line of the source with its number, however often it is read.
-/

namespace TapeMachine.Assembler

open Course (bound)

/-! ## Macros stay as they are -/

/-- A part of the reading that changes no macro, if it succeeds. -/
def KeepsMacros {α : Type} (p : Pass α) : Prop :=
  ∀ a x b, p.run a = .ok x b → b.macros = a.macros

/-- A line that is opened defines no macros. -/
theorem macros_of_opened {v : Visit} {c : Option Call} {b : Assembler}
    (hopened : v.opened = .ok c b) : b.macros = v.before.macros := by
  rcases v.stated_of_opened hopened with ⟨_, _, _, hmacros⟩ | hstated
  · exact hmacros
  · cases hstated with
    | empty _ => rfl
    | call _ _ => rfl
    | entry _ _ _ _ => rfl

/-- A line calls a macro by its name. -/
theorem callee_of_opened {v : Visit} {c : Call} {b : Assembler}
    (hopened : v.opened = .ok (some c) b) : v.before.macros[c.name]? = some c.callee := by
  rcases v.stated_of_opened hopened with ⟨_, hnone, _⟩ | hstated
  · cases hnone
  · cases hstated with
    | call _ hcallee => exact hcallee

/-- A failure defines no macros. -/
theorem keepsMacros_throw {α : Type} (e : AssemblyError) : KeepsMacros (throw e : Pass α) := by
  intro a x b hrun
  cases hrun

/-- A body defines no macros if its lines do not. -/
private theorem keepsMacros_readBody {read : Nat → String → Pass Unit}
    (hread : ∀ number line, KeepsMacros (read number line)) (name : String) (number : Nat)
    (lines : List String) : KeepsMacros (readBody read name number lines) := by
  induction lines generalizing number with
  | nil =>
    intro a x b hrun
    cases hrun
    rfl
  | cons line lines ih =>
    intro a x b hrun
    rw [readBody, EStateM.run_bind, Course.run_within] at hrun
    cases hline : (read number (localize name number line)).run a with
    | error e d =>
      rw [hline] at hrun
      cases hrun
    | ok y d =>
      rw [hline] at hrun
      exact (ih (number + 1) d x b hrun).trans (hread _ _ a y d hline)

/-- A call defines no macros if the lines of the body do not. -/
theorem keepsMacros_callWith {read : Nat → String → Pass Unit}
    (hread : ∀ number line, KeepsMacros (read number line)) (m : Macro) (name : String)
    (args : List String) : KeepsMacros (callWith read m name args) := by
  intro a x b hrun
  unfold callWith at hrun
  by_cases hlength : args.length ≠ m.params.length
  · rw [if_pos hlength] at hrun
    cases hrun
  · rw [if_neg hlength] at hrun
    change (withEquates _ _).run a = _ at hrun
    rw [Course.run_withEquates] at hrun
    cases hbody : (readBody read name m.line m.body.toList).run
        (bound (m.params.zip args) a) with
    | error e d =>
      rw [hbody] at hrun
      cases hrun
    | ok y d =>
      rw [hbody] at hrun
      have hd := keepsMacros_readBody hread name m.line _ _ y d hbody
      cases hrun
      exact hd

/-- A line defines no macros if the calls that it makes do not. -/
theorem keepsMacros_readLineWith {call : Macro → String → List String → Pass Unit}
    (hcall : ∀ m name args, KeepsMacros (call m name args)) (number : Nat) (line : String) :
    KeepsMacros (readLineWith call number line) := by
  intro a x b hrun
  rw [readLineWith_eq_bind, EStateM.run_bind] at hrun
  cases hopen : (opening number line).run a with
  | error e d =>
    rw [hopen] at hrun
    cases hrun
  | ok c d =>
    rw [hopen] at hrun
    have hd : d.macros = a.macros := @macros_of_opened ⟨none, number, line, a⟩ c d hopen
    cases c with
    | none =>
      cases hrun
      exact hd
    | some c => exact (hcall _ _ _ d x b hrun).trans hd

/-- Lines that call macros do not change them. -/
theorem keepsMacros_readLine (depth number : Nat) (line : String) :
    KeepsMacros (readLine depth number line) := by
  induction depth generalizing number line with
  | zero =>
    exact keepsMacros_readLineWith (keepsMacros_callWith fun _ _ => keepsMacros_throw _) number line
  | succ depth ih => exact keepsMacros_readLineWith (keepsMacros_callWith ih) number line

/-! ## Lines of macros -/

/-- A line that is read from a macro. -/
def Visit.InMacro (macros : Table Macro) (v : Visit) : Prop :=
  ∃ (name : String) (m : Macro) (i : Nat), macros[name]? = some m ∧
    m.body.toList[i]? = some v.written ∧ v.number = m.line + i

section

variable {macros : Table Macro} {v : Visit}

/-- The visits of a body are its lines, or lines in macros. -/
private theorem mem_visitsOfBody {read : Nat → String → Pass Unit}
    {visits : Nat → String → Assembler → List Visit}
    (hread : ∀ number line, KeepsMacros (read number line))
    (hvisits : ∀ number line a, a.macros = macros → ∀ v ∈ visits number line a,
      (v.number = number ∧ v.written = line) ∨ v.InMacro macros)
    (name : String) (number : Nat) (lines : List String) {a : Assembler} (ha : a.macros = macros)
    (hv : v ∈ visitsOfBody read visits name number lines a) :
    (∃ i : Nat, lines[i]? = some v.written ∧ v.number = number + i) ∨ v.InMacro macros := by
  induction lines generalizing number a with
  | nil => cases hv
  | cons line lines ih =>
    have hline (hv : v ∈ visits number line a) :
        (∃ i : Nat, (line :: lines)[i]? = some v.written ∧ v.number = number + i) ∨
          v.InMacro macros := by
      rcases hvisits number line a ha v hv with ⟨hnumber, hwritten⟩ | hmacro
      · exact .inl ⟨0, congrArg some hwritten.symm, hnumber⟩
      · exact .inr hmacro
    unfold visitsOfBody thenVisits at hv
    cases hrun : (read number (localize name number line)).run a with
    | error e b =>
      rw [hrun] at hv
      exact hline hv
    | ok x b =>
      rw [hrun] at hv
      rcases List.mem_append.mp hv with hv | hv
      · exact hline hv
      · have hb : b.macros = macros := (hread _ _ a x b hrun).trans ha
        rcases ih (number + 1) hb hv with ⟨i, hi, hnumber⟩ | hmacro
        · exact .inl ⟨i + 1, hi, by omega⟩
        · exact .inr hmacro

/-- The visits of a call are lines in macros. -/
theorem mem_visitsOfCall {read : Nat → String → Pass Unit}
    {visits : String → Nat → String → Assembler → List Visit}
    (hread : ∀ number line, KeepsMacros (read number line))
    (hvisits : ∀ name number line a, a.macros = macros → ∀ v ∈ visits name number line a,
      (v.number = number ∧ v.written = line) ∨ v.InMacro macros)
    {c : Call} (hcallee : macros[c.name]? = some c.callee) {a : Assembler} (ha : a.macros = macros)
    (hv : v ∈ visitsOfCall read visits c a) : v.InMacro macros := by
  unfold visitsOfCall at hv
  split at hv
  · cases hv
  · have hbound : (bound (c.callee.params.zip c.args) a).macros = macros := ha
    rcases mem_visitsOfBody hread (hvisits c.name) c.name c.callee.line _ hbound hv with
      ⟨i, hi, hnumber⟩ | hmacro
    · exact ⟨c.name, c.callee, i, hcallee, hi, hnumber⟩
    · exact hmacro

/-- The visits of a line are the line itself, or lines in macros. -/
theorem mem_visitsBehind {w : Visit} {next : Call → Assembler → List Visit}
    (hnext : ∀ c b, w.before.macros[c.name]? = some c.callee → b.macros = w.before.macros →
      v ∈ next c b → v.InMacro w.before.macros)
    (hv : v ∈ visitsBehind w next) : v = w ∨ v.InMacro w.before.macros := by
  unfold visitsBehind at hv
  split at hv
  · next c b hopened =>
    rcases List.mem_cons.mp hv with hv | hv
    · exact .inl hv
    · exact .inr (hnext c b (callee_of_opened hopened) (macros_of_opened hopened) hv)
  · exact .inl (List.mem_singleton.mp hv)

/-- What is read for a line is the line itself, or a line of a macro. -/
theorem place_of_mem_visitsOfLine (depth : Nat) (scope : Option String) (number : Nat)
    (line : String) {a : Assembler} (ha : a.macros = macros)
    (hv : v ∈ visitsOfLine depth scope number line a) :
    (v.number = number ∧ v.written = line) ∨ v.InMacro macros := by
  subst ha
  induction depth generalizing scope number line a v with
  | zero =>
    have hbehind := mem_visitsBehind (fun c b hcallee hb => mem_visitsOfCall
      (fun _ _ => keepsMacros_throw _) (fun _ _ _ _ _ v hv => by cases hv) hcallee hb) hv
    rcases hbehind with rfl | hmacro
    · exact .inl ⟨rfl, rfl⟩
    · exact .inr hmacro
  | succ depth ih =>
    have hbehind := mem_visitsBehind (fun c b hcallee hb => mem_visitsOfCall
      (keepsMacros_readLine depth)
      (fun name number line a ha v hv => ha ▸ ih (some name) number line hv) hcallee hb) hv
    rcases hbehind with rfl | hmacro
    · exact .inl ⟨rfl, rfl⟩
    · exact .inr hmacro

end

/-! ## Lines of sources -/

/-- A line of the source with its number. -/
def Visit.IsLine (lines : List String) (v : Visit) : Prop :=
  1 ≤ v.number ∧ (lines[v.number - 1]?).map stripped = some v.written

/-- The macros keep lines of the source. The next line of the source is the next one of the
macro that is open. -/
structure Recorded (lines : List String) (p : Position) (a : Assembler) : Prop where
  body : ∀ (name : String) (m : Macro), a.macros[name]? = some m → 1 ≤ m.line ∧
    ∀ (i : Nat) (line : String), m.body.toList[i]? = some line →
      (lines[m.line - 1 + i]?).map stripped = some line
  opened : ∀ (name : String) (m : Macro), p.opened = some name → a.macros[name]? = some m →
    m.line + m.body.size = p.number + 1

/-- A line in a macro is a line of the source. -/
theorem isLine_of_inMacro {lines : List String} {p : Position} {a : Assembler}
    (h : Recorded lines p a) {v : Visit} (hv : v.InMacro a.macros) : v.IsLine lines := by
  obtain ⟨name, m, i, hm, hi, hnumber⟩ := hv
  obtain ⟨hline, hbody⟩ := h.body name m hm
  refine ⟨by omega, ?_⟩
  rw [hnumber, Nat.sub_add_comm hline]
  exact hbody i v.written hi

/-- A definition that begins adds a macro without lines. -/
private theorem openMacro_eq_ok {number : Nat} {args : List String} {a b : Assembler}
    {name : String} (hok : (openMacro number args).run a = .ok name b) :
    ∃ params, a.macros[name]? = none ∧
      b = { a with macros := a.macros.insert name ⟨number + 1, params, #[]⟩ } := by
  cases args with
  | nil => cases hok
  | cons first params =>
    unfold openMacro at hok
    simp only [EStateM.run_bind, EStateM.run_get] at hok
    by_cases hknown : a.macros.contains first = true
    · rw [if_pos hknown] at hok
      cases hok
    · rw [if_neg hknown] at hok
      cases hok
      exact ⟨params, by simpa using hknown, rfl⟩

/-- A definition that begins is recorded. -/
theorem Recorded.openMacro {lines : List String} {p : Position} {a b : Assembler}
    {args : List String} {name : String} (h : Recorded lines p a)
    (hopen : (openMacro (p.number + 1) args).run a = .ok name b) (line : String) :
    Recorded lines ⟨p.number + 1, line, some name⟩ b := by
  obtain ⟨params, _, rfl⟩ := openMacro_eq_ok hopen
  have hmacro {name' : String} {m : Macro}
      (hm : (a.macros.insert name ⟨p.number + 1 + 1, params, #[]⟩)[name']? = some m) :
      (name' = name ∧ m = ⟨p.number + 1 + 1, params, #[]⟩) ∨ a.macros[name']? = some m := by
    rw [Std.ExtTreeMap.getElem?_insert] at hm
    split at hm
    · next hname =>
      exact .inl ⟨(Std.compare_eq_iff_eq.mp hname).symm, (Option.some.inj hm).symm⟩
    · exact .inr hm
  constructor
  · intro name' m hm
    rcases hmacro hm with ⟨rfl, rfl⟩ | hold
    · refine ⟨by simp, fun i line hi => ?_⟩
      simp at hi
    · exact h.body name' m hold
  · intro name' m hname hm
    obtain rfl : name = name' := Option.some.inj hname
    dsimp only at hm ⊢
    rw [Std.ExtTreeMap.getElem?_insert_self] at hm
    obtain rfl := Option.some.inj hm
    rfl

/-- A line of a definition is recorded. -/
theorem Recorded.extendMacro {lines : List String} {p : Position} {a : Assembler}
    {name line : String} (h : Recorded lines p a) (hopened : p.opened = some name)
    (hline : lines[p.number]? = some line) {b : Assembler} {x : Unit}
    (hextend : (extendMacro name (stripped line)).run a = .ok x b) :
    Recorded lines ⟨p.number + 1, stripped line, some name⟩ b := by
  cases hextend
  -- A macro is either the one that is open, with the line behind its other ones, or an old one.
  have hmacro {name' : String} {m : Macro}
      (hm : (a.macros.alter name (Option.map fun m =>
        { m with body := m.body.push (stripped line) }))[name']? = some m) :
      (name' = name ∧ ∃ old, a.macros[name]? = some old ∧
        m = { old with body := old.body.push (stripped line) }) ∨
      (name' ≠ name ∧ a.macros[name']? = some m) := by
    rw [Std.ExtTreeMap.getElem?_alter] at hm
    split at hm
    · next hname =>
      obtain ⟨old, hold, hpush⟩ := Option.map_eq_some_iff.mp hm
      exact .inl ⟨(Std.compare_eq_iff_eq.mp hname).symm, old, hold, hpush.symm⟩
    · next hname =>
      refine .inr ⟨fun heq => hname (Std.compare_eq_iff_eq.mpr heq.symm), hm⟩
  constructor
  · intro name' m hm
    rcases hmacro hm with ⟨rfl, old, hold, rfl⟩ | ⟨_, hold⟩
    · obtain ⟨hpositive, hbody⟩ := h.body name' old hold
      have hsize := h.opened name' old hopened hold
      refine ⟨hpositive, fun i line' hi => ?_⟩
      rw [Array.getElem?_toList, Array.getElem?_push] at hi
      split at hi
      · next hlast =>
        have hindex : old.line - 1 + i = p.number := by omega
        dsimp only
        rw [hindex, hline, Option.map_some]
        exact hi
      · exact hbody i line' (Array.getElem?_toList.trans hi)
    · exact h.body name' m hold
  · intro name' m hname hm
    obtain rfl : name = name' := Option.some.inj hname
    rcases hmacro hm with ⟨_, old, hold, rfl⟩ | ⟨hne, _⟩
    · have hsize := h.opened name old hopened hold
      simp only [Array.size_push]
      omega
    · exact absurd rfl hne

/-- One line. -/
theorem Recorded.readSourceLine {lines : List String} {p : Position} {a b : Assembler}
    {line : String} {opened : Option String} (h : Recorded lines p a)
    (hline : lines[p.number]? = some line)
    (hrun : (readSourceLine (p.number + 1) (stripped line) p.opened).run a = .ok opened b) :
    Recorded lines ⟨p.number + 1, stripped line, opened⟩ b := by
  have hclosed {b : Assembler} (hb : b.macros = a.macros) :
      Recorded lines ⟨p.number + 1, stripped line, none⟩ b := by
    refine ⟨fun name m hm => h.body name m (hb ▸ hm), fun name m hnone => ?_⟩
    cases hnone
  unfold Assembler.readSourceLine at hrun
  split at hrun
  · by_cases hopened : p.opened.isSome = true
    · rw [if_pos hopened] at hrun
      cases hrun
    · rw [if_neg hopened] at hrun
      change (Assembler.openMacro _ _ >>= _).run a = _ at hrun
      rw [EStateM.run_bind] at hrun
      split at hrun
      · next name c hopen =>
        cases hrun
        exact h.openMacro hopen _
      · cases hrun
  · by_cases hopened : p.opened.isNone = true
    · rw [if_pos hopened] at hrun
      cases hrun
    · rw [if_neg hopened] at hrun
      cases hrun
      exact hclosed rfl
  · cases hopened : p.opened with
    | some name =>
      rw [hopened] at hrun
      dsimp only at hrun
      rw [EStateM.run_bind] at hrun
      split at hrun
      · next x c hextend =>
        cases hrun
        exact h.extendMacro hopened hline hextend
      · cases hrun
    | none =>
      rw [hopened] at hrun
      dsimp only at hrun
      rw [EStateM.run_bind] at hrun
      split at hrun
      · next x c hread =>
        cases hrun
        exact hclosed (keepsMacros_readLine _ _ _ a x _ hread)
      · cases hrun

/-- Every visit is that of a line of the source. -/
theorem isLine_of_mem_visitsOfLines {lines rest : List String} {p : Position} {a : Assembler}
    (h : Recorded lines p a) (hrest : lines.drop p.number = rest) {v : Visit}
    (hv : v ∈ visitsOfLines p rest a) : v.IsLine lines := by
  induction rest generalizing p a with
  | nil => cases hv
  | cons line rest ih =>
    have hline : lines[p.number]? = some line := by
      rw [← List.head?_drop, hrest, List.head?_cons]
    have hdrop : lines.drop (p.number + 1) = rest := by
      rw [← List.drop_drop, hrest]
      rfl
    have hown (hv : v ∈ visitsOfSourceLine (p.number + 1) (stripped line) p.opened a) :
        v.IsLine lines := by
      unfold visitsOfSourceLine at hv
      dsimp only at hv
      split at hv
      · cases hv
      · rcases place_of_mem_visitsOfLine maxDepth none _ _ rfl hv with ⟨hnumber, hwritten⟩ | hmacro
        · refine ⟨by omega, ?_⟩
          rw [hnumber, hwritten, Nat.add_sub_cancel, hline, Option.map_some]
        · exact isLine_of_inMacro h hmacro
    unfold visitsOfLines thenVisits at hv
    dsimp only at hv
    cases hrun : (Assembler.readSourceLine (p.number + 1) (stripped line) p.opened).run a with
    | error e b =>
      rw [hrun] at hv
      exact hown hv
    | ok opened b =>
      rw [hrun] at hv
      rcases List.mem_append.mp hv with hv | hv
      · exact hown hv
      · exact ih (h.readSourceLine hline hrun) hdrop hv

/-- Every line that is read is a line of the source with its number. -/
theorem isLine_of_mem_visits {source : Source} {a : Assembler} {v : Visit}
    (hv : v ∈ visits source a) : v.IsLine source.lines := by
  have hfresh : Recorded source.lines {} a.fresh := by
    refine ⟨fun name m hm => ?_, fun name m hopened => by cases hopened⟩
    rw [show a.fresh.macros[name]? = none from Std.ExtTreeMap.getElem?_empty] at hm
    cases hm
  exact isLine_of_mem_visitsOfLines hfresh rfl hv

end TapeMachine.Assembler
