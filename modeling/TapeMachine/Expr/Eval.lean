import TapeMachine.Expr.Builtin
import TapeMachine.Expr.Parser
import TapeMachine.Script

/-!
# Evaluation

A script is checked before it runs: every name in it has to stand for something,
even in a part that is never reached, and the arguments of every call have to be in
order. A name that the script assigns is its own in the whole script, and cannot be
read before it is assigned.
-/

namespace TapeMachine.Expr

mutual

/-- The names that an expression reads. -/
def names : Expr → List String
  | .name s => [s]
  | .int _ | .float _ | .text _ => []
  | .unary _ x => names x
  | .negate x => names x
  | .binary _ x y => names x ++ names y
  | .both x y => names x ++ names y
  | .either x y => names x ++ names y
  | .choose c x y => names c ++ names x ++ names y
  | .list xs => namesAll xs
  | .tuple xs => namesAll xs
  | .index x i => names x ++ names i
  | .attribute x _ => names x
  | .call f args _ => names f ++ namesAll args

/-- The names that several expressions read. -/
def namesAll : List Expr → List String
  | [] => []
  | x :: xs => names x ++ namesAll xs

end

/-- The greatest number of arguments of a call by position, and by name. -/
def argumentLimit : Nat := 255

/-- Whether arguments with these names can be passed: those by name come last, no
two of them have one name, and there are not too many of either kind. -/
def passable (names : List (Option String)) : Bool :=
  let named := names.filterMap id
  (names.dropWhile Option.isNone).all Option.isSome && named.Nodup &&
    named.length ≤ argumentLimit && names.length - named.length ≤ argumentLimit

mutual

/-- Whether the arguments of all calls in an expression can be passed. -/
def callsPassable : Expr → Bool
  | .name _ | .int _ | .float _ | .text _ => true
  | .unary _ x => callsPassable x
  | .negate x => callsPassable x
  | .binary _ x y => callsPassable x && callsPassable y
  | .both x y => callsPassable x && callsPassable y
  | .either x y => callsPassable x && callsPassable y
  | .choose c x y => callsPassable c && callsPassable x && callsPassable y
  | .list xs => allPassable xs
  | .tuple xs => allPassable xs
  | .index x i => callsPassable x && callsPassable i
  | .attribute x _ => callsPassable x
  | .call f args names => callsPassable f && allPassable args && passable names

/-- Whether the arguments of all calls in several expressions can be passed. -/
def allPassable : List Expr → Bool
  | [] => true
  | x :: xs => callsPassable x && allPassable xs

end

mutual

/-- The value of an expression, given what names stand for. -/
def eval? (lookup : String → Option Value) : Expr → Option Value
  | .name s => lookup s
  | .int n => some (.int n)
  | .float x => some (.float x)
  | .text bytes => some (.text bytes)
  | .unary op x => do
    let x ← eval? lookup x
    Value.unary? op x
  | .negate x => do
    let x ← eval? lookup x
    return .bool !x.truth
  | .binary op x y => do
    let x ← eval? lookup x
    let y ← eval? lookup y
    Value.binary? op x y
  | .both x y => do
    let x ← eval? lookup x
    if x.truth then eval? lookup y else return x
  | .either x y => do
    let x ← eval? lookup x
    if x.truth then return x else eval? lookup y
  | .choose c x y => do
    let c ← eval? lookup c
    if c.truth then eval? lookup x else eval? lookup y
  | .list xs => do
    let xs ← evalAll? lookup xs
    return .list xs
  | .tuple xs => do
    let xs ← evalAll? lookup xs
    return .tuple xs
  | .index x i => do
    let x ← eval? lookup x
    let i ← eval? lookup i
    Value.index? x i
  -- No value has attributes.
  | .attribute _ _ => none
  | .call f args names => do
    let f ← eval? lookup f
    let args ← evalAll? lookup args
    let passed := names.zip args
    match f with
    | .builtin f =>
      f.call? ((passed.filter (·.1.isNone)).map (·.2))
        (passed.filterMap fun (key, x) => key.map (·, x))
    | _ => none

/-- The values of several expressions. -/
def evalAll? (lookup : String → Option Value) : List Expr → Option (List Value)
  | [] => some []
  | x :: xs => do
    let v ← eval? lookup x
    let vs ← evalAll? lookup xs
    return v :: vs

end

/-- What a statement assigns to, if it does. -/
def Statement.target? : Statement → Option Expr
  | .assign target _ | .update target _ => some target
  | .discard _ => none

/-- The expression of a statement. -/
def Statement.expr : Statement → Expr
  | .assign _ x | .update _ x | .discard x => x

/-- The name that an expression is, if it is one. -/
def name? : Expr → Option String
  | .name s => some s
  | _ => none

/-- The names that a script assigns, in order. -/
def assigned (script : List Statement) : List String :=
  script.filterMap fun s => s.target?.bind name?

/-- Whether only names are assigned, none of them twice, every name that is read is
assigned, given, or known to every script, and all arguments can be passed. -/
def resolves (given : String → Option Value) (script : List Statement) : Bool :=
  let own := assigned script
  own.Nodup && script.all fun s =>
    s.target?.all (fun target => (name? target).isSome) && callsPassable s.expr &&
      (names s.expr).all fun n =>
        own.contains n || (given n).isSome || (Value.universal? n).isSome

/-- What a name stands for, when `own` are the script's names and `set` those of
them that have a value. -/
def meaning (given : String → Option Value) (own : List String) (set : List (String × Value))
    (n : String) : Option Value :=
  if own.contains n then set.lookup n
  else
    match given n with
    | some v => some v
    | none => Value.universal? n

/-- Runs statements, after which the script's names have values. -/
def runFrom? (given : String → Option Value) (own : List String) :
    List (String × Value) → List Statement → Option (List (String × Value))
  | set, [] => some set
  | set, s :: rest =>
    match eval? (meaning given own set) s.expr with
    | none => none
    | some v =>
      match s with
      | .assign (.name n) _ => runFrom? given own ((n, v) :: set) rest
      | .discard _ => runFrom? given own set rest
      -- No name can have an old value, since none is assigned twice.
      | _ => none

/-- Runs a script, given what names stand for outside it. -/
def run (given : String → Option Value) (text : List Char) :
    Except Script.Stage (List (String × Value)) :=
  match parse? text with
  | none => .error .malformed
  | some script =>
    if resolves given script then
      match runFrom? given (assigned script) [] script with
      | none => .error .failed
      | some set => .ok set
    else .error .unresolved

/-- The text of an error. -/
def message : Script.Stage → String
  | .malformed => "expression syntax"
  | .unresolved => "undefined name in expression"
  | .failed => "expression failed"

/-- A value, as the assembler sees it. -/
def Value.seen : Value → Script.Value
  | .int n => .int n
  | _ => .other

/-- The language of this library. It has the literals, operators and some of the functions
of the language that sources are written with, and refuses the rest of that language. -/
def script : Script where
  run text given :=
    match run (fun name => (given name).map .int) text with
    | .error stage => .error ⟨stage, message stage⟩
    | .ok set => .ok fun name => (set.lookup name).map Value.seen

end TapeMachine.Expr
