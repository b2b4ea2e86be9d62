import TapeMachine.Assembler

/-!
# The course of reading

Reading changes the assembler in small steps. A course is a state that keeps account of
them: an assembler, together with all that it has been. The parts of the reading are
written for any state, so that the same definitions read a source in a course. In this
way one can say what holds at every moment of the reading, also inside of a macro and
where reading fails.
-/

namespace TapeMachine.Assembler

variable {α β : Type}

/-- The state in which a part of the reading ends, whether it fails or not. -/
def endOf (p : Pass α) (a : Assembler) : Assembler :=
  match p.run a with
  | .ok _ b => b
  | .error _ b => b

/-- An assembler is read in as it is. -/
@[simp]
theorem liftM_pass (p : Pass α) : (liftM p : PassIn Assembler α) = p := rfl

/-- An assembler, and what it has been since the account of it began. The first moment is
the one behind the first step. -/
structure Course where
  now : Assembler
  moments : List Assembler := []

namespace Course

/-- An outcome together with the moments on the way to it. -/
def noted (moments : List Assembler) :
    EStateM.Result AssemblyError Assembler α → EStateM.Result AssemblyError Course α
  | .ok x b => .ok x ⟨b, moments⟩
  | .error e b => .error e ⟨b, moments⟩

/-- A pass is one step of a course, and its end is a moment, also if it fails. -/
instance : MonadLiftT Pass (PassIn Course) where
  monadLift p := fun c => noted (c.moments ++ [endOf p c.now]) (p.run c.now)

/-- The outcome of a course without its moments. -/
def outcome : EStateM.Result AssemblyError Course α → EStateM.Result AssemblyError Assembler α
  | .ok x c => .ok x c.now
  | .error e c => .error e c.now

/-- All moments of a course, in order. -/
def momentsOf : EStateM.Result AssemblyError Course α → List Assembler
  | .ok _ c => c.moments
  | .error _ c => c.moments

/-- The outcome is as it would be without moments. -/
@[simp]
theorem outcome_noted (moments : List Assembler)
    (r : EStateM.Result AssemblyError Assembler α) : outcome (noted moments r) = r := by
  cases r with
  | ok x b => rfl
  | error e b => rfl

/-- The moments are those that were noted. -/
@[simp]
theorem momentsOf_noted (moments : List Assembler)
    (r : EStateM.Result AssemblyError Assembler α) : momentsOf (noted moments r) = moments := by
  cases r with
  | ok x b => rfl
  | error e b => rfl

/-- A step notes the state at its end. -/
theorem run_lift (p : Pass α) (c : Course) :
    (liftM p : PassIn Course α).run c = noted (c.moments ++ [endOf p c.now]) (p.run c.now) := rfl

/-- Only errors change in a context. -/
theorem run_within {σ α : Type} (context : AssemblyError → AssemblyError) (p : PassIn σ α)
    (s : σ) :
    (within context p).run s =
      match p.run s with
      | .ok x t => .ok x t
      | .error e t => .error (context e) t := rfl

/-- What comes at the end in any case may replace the outcome by an error of its own. -/
theorem run_tryFinally {σ α β : Type} (p : PassIn σ α) (f : PassIn σ β) (s : σ) :
    (try p finally f).run s =
      match p.run s with
      | .ok x t =>
        match f.run t with
        | .ok _ u => .ok x u
        | .error e u => .error e u
      | .error e t =>
        match f.run t with
        | .ok _ u => .error e u
        | .error e' u => .error e' u := by
  have hmap : (try p finally f).run s =
      (EStateM.map Prod.fst (tryFinally' p fun _ => f)).run s := rfl
  rw [hmap]
  cases hp : p.run s with
  | ok x t =>
    have hfirst : p s = .ok x t := hp
    cases hf : f.run t with
    | ok y u =>
      have hlast : f t = .ok y u := hf
      simp only [EStateM.run, EStateM.map, tryFinally', hfirst, hlast]
    | error e u =>
      have hlast : f t = .error e u := hf
      simp only [EStateM.run, EStateM.map, tryFinally', hfirst, hlast]
  | error e t =>
    have hfirst : p s = .error e t := hp
    cases hf : f.run t with
    | ok y u =>
      have hlast : f t = .ok y u := hf
      simp only [EStateM.run, EStateM.map, tryFinally', hfirst, hlast]
    | error e' u =>
      have hlast : f t = .error e' u := hf
      simp only [EStateM.run, EStateM.map, tryFinally', hfirst, hlast]

/-- A context for errors does not change where a computation ends. -/
theorem endOf_within (context : AssemblyError → AssemblyError) (p : Pass α) (a : Assembler) :
    endOf (within context p) a = endOf p a := by
  unfold endOf
  rw [run_within]
  cases p.run a with
  | ok x b => rfl
  | error e b => rfl

/-! ## Paths -/

/-- Steps one after the other from one state to another, with the states behind each. -/
inductive Path (step : Assembler → Assembler → Prop) :
    Assembler → List Assembler → Assembler → Prop where
  | nil (a : Assembler) : Path step a [] a
  | cons {a b c : Assembler} {moments : List Assembler} (hstep : step a b)
    (hpath : Path step b moments c) : Path step a (b :: moments) c

variable {step : Assembler → Assembler → Prop}

/-- Paths can be joined. -/
theorem Path.append {a b c : Assembler} {first second : List Assembler}
    (hfirst : Path step a first b) (hsecond : Path step b second c) :
    Path step a (first ++ second) c := by
  induction hfirst with
  | nil => exact hsecond
  | cons hchange _ ih => exact .cons hchange (ih hsecond)

/-- The last moment of a path is its end. -/
theorem Path.getLast? {a b : Assembler} {moments : List Assembler}
    (hpath : Path step a moments b) : (a :: moments).getLast? = some b := by
  induction hpath with
  | nil a => rfl
  | cons _ _ ih => rwa [List.getLast?_cons_cons]

/-- A path of steps is one of weaker steps, too. -/
theorem Path.mono {step' : Assembler → Assembler → Prop} (hstep : ∀ a b, step a b → step' a b)
    {a b : Assembler} {moments : List Assembler} (hpath : Path step a moments b) :
    Path step' a moments b := by
  induction hpath with
  | nil a => exact .nil a
  | cons h _ ih => exact .cons (hstep _ _ h) ih

variable (step) in
/-- A part of the reading goes in a course as it does without one, and the moments that it
adds are one step apart and lead to its end. -/
def Gradual (p : PassIn Course α) (q : Pass α) : Prop :=
  ∀ c : Course, ∃ moments, Path step c.now moments (endOf q c.now) ∧
    p.run c = noted (c.moments ++ moments) (q.run c.now)

/-- Steps may be described more loosely. -/
theorem Gradual.mono {step' : Assembler → Assembler → Prop} {p : PassIn Course α} {q : Pass α}
    (hp : Gradual step p q) (hstep : ∀ a b, step a b → step' a b) : Gradual step' p q := by
  intro c
  obtain ⟨moments, hpath, hrun⟩ := hp c
  exact ⟨moments, hpath.mono hstep, hrun⟩

/-! ## Parts that are made of others -/

/-- Returning a value takes no step. -/
theorem Gradual.pure (x : α) : Gradual step (Pure.pure x) (Pure.pure x) := by
  intro c
  refine ⟨[], .nil _, ?_⟩
  rw [List.append_nil]
  rfl

/-- Failing takes no step. -/
theorem Gradual.throw (e : AssemblyError) :
    Gradual step (MonadExcept.throw e : PassIn Course α) (MonadExcept.throw e) := by
  intro c
  refine ⟨[], .nil _, ?_⟩
  rw [List.append_nil]
  rfl

/-- A pass that is a step is gradual. -/
theorem Gradual.lift {p : Pass α} (hp : ∀ a, step a (endOf p a)) : Gradual step (liftM p) p :=
  fun c => ⟨[endOf p c.now], .cons (hp c.now) (.nil _), run_lift p c⟩

/-- One part after the other is gradual if both are. -/
theorem Gradual.bind {p : PassIn Course α} {q : Pass α} {f : α → PassIn Course β}
    {g : α → Pass β} (hp : Gradual step p q) (hf : ∀ x, Gradual step (f x) (g x)) :
    Gradual step (p >>= f) (q >>= g) := by
  intro c
  obtain ⟨first, hfirst, hrun⟩ := hp c
  unfold endOf at hfirst ⊢
  rw [EStateM.run_bind, EStateM.run_bind, hrun]
  cases hq : q.run c.now with
  | ok x b =>
    rw [hq] at hfirst
    obtain ⟨second, hsecond, hrun'⟩ := hf x ⟨b, c.moments ++ first⟩
    rw [List.append_assoc] at hrun'
    exact ⟨first ++ second, hfirst.append hsecond, hrun'⟩
  | error e b =>
    -- The second part is not reached, and the path ends where the first part failed.
    rw [hq] at hfirst
    exact ⟨first, hfirst, rfl⟩

/-- The context of errors makes no moment. -/
theorem Gradual.within {p : PassIn Course α} {q : Pass α} (hp : Gradual step p q)
    (context : AssemblyError → AssemblyError) :
    Gradual step (within context p) (within context q) := by
  intro c
  obtain ⟨moments, hpath, hrun⟩ := hp c
  refine ⟨moments, ?_, ?_⟩
  · rwa [endOf_within]
  · rw [run_within, run_within, hrun]
    cases q.run c.now with
    | ok x b => rfl
    | error e b => rfl

/-- What comes at the end of a part in any case follows its moments. -/
theorem Gradual.tryFinally {p : PassIn Course α} {q : Pass α} {f : PassIn Course β} {g : Pass β}
    (hp : Gradual step p q) (hf : Gradual step f g) :
    Gradual step (try p finally f) (try q finally g) := by
  intro c
  obtain ⟨first, hfirst, hrun⟩ := hp c
  unfold endOf at hfirst ⊢
  rw [run_tryFinally, run_tryFinally, hrun]
  cases hq : q.run c.now with
  | ok x b =>
    rw [hq] at hfirst
    obtain ⟨second, hsecond, hrun'⟩ := hf ⟨b, c.moments ++ first⟩
    refine ⟨first ++ second, ?_⟩
    unfold endOf at hsecond
    dsimp only [noted]
    rw [hrun', List.append_assoc]
    cases hg : g.run b with
    | ok y d =>
      rw [hg] at hsecond
      exact ⟨hfirst.append hsecond, rfl⟩
    | error e d =>
      rw [hg] at hsecond
      exact ⟨hfirst.append hsecond, rfl⟩
  | error e b =>
    rw [hq] at hfirst
    obtain ⟨second, hsecond, hrun'⟩ := hf ⟨b, c.moments ++ first⟩
    refine ⟨first ++ second, ?_⟩
    unfold endOf at hsecond
    dsimp only [noted]
    rw [hrun', List.append_assoc]
    cases hg : g.run b with
    | ok y d =>
      rw [hg] at hsecond
      exact ⟨hfirst.append hsecond, rfl⟩
    | error e' d =>
      rw [hg] at hsecond
      exact ⟨hfirst.append hsecond, rfl⟩

end Course

end TapeMachine.Assembler
