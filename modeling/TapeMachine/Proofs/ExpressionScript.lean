import TapeMachine.Assembler.Literal
import TapeMachine.Expr.Eval

/-!
# Scripts of expressions

An expression is evaluated as the script that assigns it to the result name. Of a script
language it has to be known that this script fails if the expression does, and assigns its value
otherwise. The result name belongs to the script, so an expression is evaluated without it.

The language of this library is shown to be such a language. There a script does not depend on
what its own names stand for outside.
-/

namespace TapeMachine

/-! ## Languages that evaluate expressions -/

namespace Script

/-- What the names of an expression stand for: the result name is not among them. -/
def withoutResult (given : String → Option Int) (name : String) : Option Int :=
  if name = Literal.resultName then none else given name

/-- That a script language evaluates the expressions of some kind. What the language makes of
an expression is its value, or an error, and depends on what names stand for. -/
structure Evaluates (script : Script) (supported : List Char → Prop)
    (value : (names : String → Option Int) → (expr : List Char) → Except Error Value) :
    Prop where
  /-- An error of an expression is an error of its script. -/
  error {given : String → Option Int} {expr : List Char} {e : Error} (hexpr : supported expr)
    (hvalue : value (withoutResult given) expr = .error e) :
    script.run (Literal.assignment expr) given = .error e
  /-- The script assigns the value of an expression. -/
  assign {given : String → Option Int} {expr : List Char} {v : Value} (hexpr : supported expr)
    (hvalue : value (withoutResult given) expr = .ok v) :
    ∃ assigned, script.run (Literal.assignment expr) given = .ok assigned ∧
      assigned Literal.resultName = some v

end Script

namespace Expr

open Literal (resultName)

namespace Token

/-! ## The tokens of an assignment -/

/-- What is done stays in front. -/
theorem unifyLineEnds_append (done before cs : List Char) :
    unifyLineEnds (done ++ before) cs = before.reverse ++ unifyLineEnds done cs := by
  induction done, cs using unifyLineEnds.induct with
  | case1 done => simp [unifyLineEnds]
  | case2 done cs ih => simpa [unifyLineEnds] using ih
  | case3 done cs hcs ih => simpa [unifyLineEnds] using ih
  | case4 done c cs h₁ h₂ ih => simpa [unifyLineEnds] using ih

/-- Line ends stay where they are. -/
theorem unifyLineEnds_cons {c : Char} (hc : c ≠ '\r') (cs : List Char) :
    unifyLineEnds [] (c :: cs) = c :: unifyLineEnds [] cs := by
  have hstep : unifyLineEnds [] (c :: cs) = unifyLineEnds ([] ++ [c]) cs :=
    unifyLineEnds.eq_4 [] c cs (fun _ h => absurd h hc) (fun h => absurd h hc)
  rw [hstep, unifyLineEnds_append]
  rfl

/-- A text does not come to begin with a sign of equality. -/
private theorem head?_unifyLineEnds {cs : List Char} (hcs : cs.head? ≠ some '=') :
    (unifyLineEnds [] cs).head? ≠ some '=' := by
  cases cs with
  | nil => exact hcs
  | cons c cs =>
    by_cases hc : c = '\r'
    · subst hc
      have hends : ∃ rest, unifyLineEnds [] ('\r' :: cs) = '\n' :: rest := by
        by_cases hnext : ∃ rest, cs = '\n' :: rest
        · obtain ⟨rest, rfl⟩ := hnext
          exact ⟨_, unifyLineEnds_append [] ['\n'] rest⟩
        · rw [unifyLineEnds.eq_3 [] cs fun rest h => hnext ⟨rest, h⟩]
          exact ⟨_, unifyLineEnds_append [] ['\n'] cs⟩
      obtain ⟨rest, hrest⟩ := hends
      rw [hrest]
      exact fun h => absurd (Option.some.inj h) (by decide)
    · rw [unifyLineEnds_cons hc]
      exact hcs

/-- Tokens are only added. -/
private theorem prefix_of_scanFrom {fuel depth : Nat} {lineStart : Bool} {done tokens : List Token}
    {cs : List Char} (h : scanFrom fuel depth lineStart done cs = some tokens) :
    done.reverse <+: tokens := by
  have hcons {token : Token} {done : List Token} (h : (token :: done).reverse <+: tokens) :
      done.reverse <+: tokens := by
    rw [List.reverse_cons] at h
    exact (List.prefix_append done.reverse [token]).trans h
  fun_induction scanFrom fuel depth lineStart done cs with
  | case1 => cases h
  | case2 => exact Option.some.inj h ▸ List.prefix_rfl
  | case3 => exact Option.some.inj h ▸ List.prefix_rfl
  | case4 _ _ _ _ _ _ _ _ _ _ ih => exact ih h
  | case5 _ _ _ _ _ _ _ _ _ _ _ _ ih => exact ih h
  | case6 _ _ _ _ _ _ _ _ _ _ _ _ ih => exact hcons (ih h)
  | case7 => cases h
  | case8 _ _ _ _ _ _ _ _ _ _ _ _ _ ih => exact ih h
  | case9 => cases h
  | case10 => cases h
  | case11 => cases h
  | case12 _ _ _ _ _ _ _ _ _ _ _ _ _ _ _ _ _ _ ih => exact hcons (ih h)

/-- A sign of equality that no other one follows. -/
private theorem next?_assign {cs : List Char} (hcs : cs.head? ≠ some '=') :
    next? ('=' :: cs) = some (.symbol "=", cs) := by
  cases cs with
  | nil => rfl
  | cons c cs =>
    have hc : ('=' == c) = false := by
      have hne : '=' ≠ c := fun h => hcs (h ▸ rfl)
      simpa using hne
    have hsymbol : symbol? ('=' :: c :: cs) = some ("=", c :: cs) := by
      simp [symbol?, symbols, List.isPrefixOf, hc]
    have hnext : next? ('=' :: c :: cs) =
        (symbol? ('=' :: c :: cs)).map fun found => (.symbol found.1, found.2) := rfl
    rw [hnext, hsymbol]
    rfl

/-- The tokens of an assignment begin with its name. -/
theorem scan?_assignment {text : List Char} (htext : text.head? ≠ some '=') {tokens : List Token}
    (h : scan? ('r' :: 'c' :: '=' :: text) = some tokens) :
    ∃ rest, tokens = .name resultName :: .symbol "=" :: rest := by
  have hends : unifyLineEnds [] ('r' :: 'c' :: '=' :: text) =
      'r' :: 'c' :: '=' :: unifyLineEnds [] text := by
    rw [unifyLineEnds_cons (by decide), unifyLineEnds_cons (by decide),
      unifyLineEnds_cons (by decide)]
  have hhead := head?_unifyLineEnds htext
  unfold scan? at h
  dsimp only at h
  rw [hends] at h
  generalize unifyLineEnds [] text = cs at h hhead
  have hfirst : scanFrom (cs.length + 2 + 2) 0 true [] ('r' :: 'c' :: '=' :: cs) =
      scanFrom (cs.length + 2 + 1) 0 false [.name resultName] ('=' :: cs) := by
    rfl
  have hsecond : scanFrom (cs.length + 2 + 1) 0 false [.name resultName] ('=' :: cs) =
      scanFrom (cs.length + 2) 0 false [.symbol "=", .name resultName] cs := by
    have hgap : ('=' :: cs).dropWhile isGap = '=' :: cs := rfl
    simp [scanFrom, hgap, next?_assign hhead, depthAfter?]
  rw [List.length_cons, List.length_cons, List.length_cons, hfirst, hsecond] at h
  obtain ⟨rest, rfl⟩ := prefix_of_scanFrom h
  exact ⟨rest, rfl⟩

end Token

/-! ## The script of an expression -/

/-- A statement that begins with a name and an assignment assigns this name. -/
private theorem eq_of_statement {fuel : Nat} {name : String} {tokens rest : List Token}
    {s : Statement}
    (h : statement (fuel + 6) (.name name :: .symbol "=" :: tokens) = some (s, rest)) :
    ∃ x, s = .assign (.name name) x := by
  have hsequence : sequence (fuel + 6) false (.name name :: .symbol "=" :: tokens) =
      some (.name name, .symbol "=" :: tokens) := rfl
  have hassign : assignmentAt? (.symbol "=" :: tokens) = some (.assign, tokens) := rfl
  unfold statement at h
  rw [hsequence] at h
  simp only [Option.bind_eq_bind, Option.bind_some, hassign] at h
  obtain ⟨⟨x, behind⟩, _, h⟩ := Option.bind_eq_some_iff.mp h
  refine ⟨x, ?_⟩
  cases behind with
  | nil => exact (Prod.mk.inj (Option.some.inj h)).1.symm
  | cons token behind =>
    cases token with
    | newline => exact (Prod.mk.inj (Option.some.inj h)).1.symm
    | _ => cases h

/-- An expression that does not begin with a sign of equality is assigned by its script. -/
theorem eq_of_parse? {expr : List Char} (hexpr : expr.head? ≠ some '=')
    {script : List Statement} (h : parse? (Literal.assignment expr) = some script) :
    ∃ x rest, script = .assign (.name resultName) x :: rest := by
  have htext : (expr ++ ['\n']).head? ≠ some '=' := by
    cases expr with
    | nil => decide
    | cons c expr => exact hexpr
  rw [Literal.assignment, List.append_assoc, List.cons_append] at h
  obtain ⟨tokens, hscan, hparse⟩ := Option.bind_eq_some_iff.mp h
  obtain ⟨behind, rfl⟩ := Token.scan?_assignment htext hscan
  obtain ⟨⟨s, left⟩, hs, hparse⟩ := Option.bind_eq_some_iff.mp hparse
  obtain ⟨rest, _, hparse⟩ := Option.bind_eq_some_iff.mp hparse
  obtain ⟨x, rfl⟩ := eq_of_statement hs
  exact ⟨x, rest, (Option.some.inj hparse).symm⟩

/-! ## What names stand for -/

section Names

variable {given given' : String → Option Value} {text : List Char}

/-- Statements only depend on what names stand for among them. -/
theorem runFrom?_congr {own : List String}
    (h : ∀ set, meaning given own set = meaning given' own set) (set : List (String × Value))
    (script : List Statement) :
    runFrom? given own set script = runFrom? given' own set script := by
  induction script generalizing set with
  | nil => rfl
  | cons s script ih =>
    rw [runFrom?, runFrom?, h]
    cases eval? (meaning given' own set) s.expr with
    | none => rfl
    | some v =>
      cases s with
      | assign target x =>
        cases target with
        | name n => exact ih _
        | _ => rfl
      | update target x => rfl
      | discard x => exact ih _

/-- A script does not depend on what its own names stand for outside. -/
theorem run_congr {script : List Statement} (hparse : parse? text = some script)
    (h : ∀ name, name ∉ assigned script → given name = given' name) :
    run given text = run given' text := by
  have hmeaning (set : List (String × Value)) :
      meaning given (assigned script) set = meaning given' (assigned script) set := by
    funext name
    unfold meaning
    by_cases hown : name ∈ assigned script
    · simp [hown]
    · simp [hown, h name hown]
  have hknown : (fun name => (assigned script).contains name || (given name).isSome ||
        (Value.universal? name).isSome) = fun name => (assigned script).contains name ||
        (given' name).isSome || (Value.universal? name).isSome := by
    funext name
    by_cases hown : name ∈ assigned script
    · simp [hown]
    · simp [hown, h name hown]
  have hresolves : resolves given script = resolves given' script := by
    unfold resolves
    simp only [hknown]
  unfold run
  rw [hparse]
  dsimp only
  rw [hresolves, runFrom?_congr hmeaning]

/-- A script that runs is one that parses, and its statements run. -/
theorem run_eq_ok {set : List (String × Value)} (hrun : run given text = .ok set) :
    ∃ script, parse? text = some script ∧
      runFrom? given (assigned script) [] script = some set := by
  unfold run at hrun
  cases hparse : parse? text with
  | none =>
    rw [hparse] at hrun
    cases hrun
  | some script =>
    rw [hparse] at hrun
    dsimp only at hrun
    refine ⟨script, rfl, ?_⟩
    split at hrun
    · split at hrun
      · cases hrun
      · next found hfound =>
        cases hrun
        exact hfound
    · cases hrun

/-- A name that has been assigned keeps a value. -/
theorem isSome_lookup_of_runFrom? {own : List String} {name : String}
    {set set' : List (String × Value)} {script : List Statement}
    (hrun : runFrom? given own set script = some set') (hset : (set.lookup name).isSome = true) :
    (set'.lookup name).isSome = true := by
  induction script generalizing set with
  | nil =>
    cases hrun
    exact hset
  | cons s script ih =>
    rw [runFrom?] at hrun
    cases hvalue : eval? (meaning given own set) s.expr with
    | none =>
      rw [hvalue] at hrun
      cases hrun
    | some v =>
      rw [hvalue] at hrun
      cases s with
      | assign target x =>
        cases target with
        | name n =>
          refine ih hrun ?_
          rw [List.lookup_cons]
          split
          · rfl
          · exact hset
        | _ => cases hrun
      | update target x => cases hrun
      | discard x => exact ih hrun hset

end Names

/-! ## The language of this library -/

/-- What this library makes of an expression. -/
def value (names : String → Option Int) (expr : List Char) :
    Except Script.Error Script.Value :=
  match script.run (Literal.assignment expr) names with
  | .error e => .error e
  | .ok assigned => .ok ((assigned resultName).getD .other)

section

variable {given : String → Option Int} {expr : List Char}

/-- The script of an expression runs alike without the result name. -/
theorem run_withoutResult (hexpr : expr.head? ≠ some '=') :
    script.run (Literal.assignment expr) (Script.withoutResult given) =
      script.run (Literal.assignment expr) given := by
  have hrun : run (fun name => (Script.withoutResult given name).map .int)
        (Literal.assignment expr) =
      run (fun name => (given name).map .int) (Literal.assignment expr) := by
    cases hparse : parse? (Literal.assignment expr) with
    | none => rw [run, run, hparse]
    | some statements =>
      obtain ⟨x, rest, rfl⟩ := eq_of_parse? hexpr hparse
      refine run_congr hparse fun name hname => ?_
      have hne : name ≠ resultName := by
        rintro rfl
        exact hname List.mem_cons_self
      rw [Script.withoutResult, if_neg hne]
  unfold script
  dsimp only
  rw [hrun]

/-- The script of an expression assigns the result name if it does not fail. -/
theorem isSome_of_run (hexpr : expr.head? ≠ some '=') {assigned : String → Option Script.Value}
    (hrun : script.run (Literal.assignment expr) given = .ok assigned) :
    (assigned resultName).isSome = true := by
  cases hset : run (fun name => (given name).map .int) (Literal.assignment expr) with
  | error stage =>
    unfold script at hrun
    dsimp only at hrun
    rw [hset] at hrun
    cases hrun
  | ok set =>
    unfold script at hrun
    dsimp only at hrun
    rw [hset] at hrun
    cases hrun
    obtain ⟨statements, hparse, hfound⟩ := run_eq_ok hset
    obtain ⟨x, rest, rfl⟩ := eq_of_parse? hexpr hparse
    -- The first statement assigns the result name, and the others keep it.
    rw [runFrom?] at hfound
    split at hfound
    · cases hfound
    · next v _ =>
      rw [Option.isSome_map]
      exact isSome_lookup_of_runFrom? hfound (by rw [List.lookup_cons_self]; rfl)

/-- The language of this library evaluates the expressions that do not begin with a sign of
equality. Such a sign makes a comparison of the assignment. -/
theorem evaluates_script : script.Evaluates (fun expr => expr.head? ≠ some '=') value where
  error hexpr hvalue := by
    unfold value at hvalue
    rw [run_withoutResult hexpr] at hvalue
    split at hvalue
    · next e hrun => rw [hrun, Except.error.inj hvalue]
    · cases hvalue
  assign hexpr hvalue := by
    unfold value at hvalue
    rw [run_withoutResult hexpr] at hvalue
    split at hvalue
    · cases hvalue
    · next assigned hrun =>
      obtain ⟨v, hv⟩ := Option.isSome_iff_exists.mp (isSome_of_run hexpr hrun)
      refine ⟨assigned, hrun, ?_⟩
      rw [hv, Option.getD_some] at hvalue
      rw [hv, Except.ok.inj hvalue]

/-- An expression whose script runs has the value that the result name gets. -/
theorem value_eq_ok {cs : List Char} {tokens : List Token} {statements : List Statement}
    (hcs : Literal.assignment expr = cs) (hscan : Token.scan? cs = some tokens)
    (hstatements : Expr.statements (tokens.length + 1) tokens = some statements)
    (hresolves : resolves (fun name => (given name).map .int) statements = true)
    {set : List (String × Value)} {v : Value}
    (hrun : runFrom? (fun name => (given name).map .int) (assigned statements) [] statements =
      some set) (hv : set.lookup resultName = some v) :
    value given expr = .ok v.seen := by
  have hparse : parse? (Literal.assignment expr) = some statements := by
    rw [hcs, parse?, hscan]
    exact hstatements
  unfold value script run
  dsimp only
  rw [hparse]
  dsimp only
  rw [hresolves, if_pos rfl, hrun]
  dsimp only
  rw [hv]
  rfl

end

end Expr

end TapeMachine
