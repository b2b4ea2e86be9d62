import TapeMachine.Expr.Basic
import TapeMachine.Expr.Token

/-!
# Grammar of expressions

From weak to strong, the operators are: the conditional, `or`, `and`, `not`,
comparisons and membership (which do not chain), `|`, `^`, `&`, shifts, sums,
products, signs, and calls, indices and attributes behind an operand. All binary
operators but the comparisons associate to the left.

Every parser takes a bound on its depth and returns the tokens it leaves. A bound
of a few times the number of tokens is never reached.
-/

namespace TapeMachine.Expr

/-- How strongly a binary operator binds, and how it joins its operands. -/
structure Operator where
  rank : Nat
  join : Expr → Expr → Expr

/-- The rank of comparisons, which do not chain. -/
def comparisonRank : Nat := 3

/-- The rank of `not`. -/
def negationRank : Nat := 2

/-- The operator that a symbol stands for. -/
def operatorOf? (s : String) : Option Operator :=
  let op (rank : Nat) (o : BinaryOp) : Option Operator := some ⟨rank, .binary o⟩
  match s with
  | "==" => op 3 (.compare .eq)
  | "!=" => op 3 (.compare .ne)
  | "<" => op 3 (.compare .lt)
  | "<=" => op 3 (.compare .le)
  | ">" => op 3 (.compare .gt)
  | ">=" => op 3 (.compare .ge)
  | "|" => op 4 .bitOr
  | "^" => op 5 .bitXor
  | "&" => op 6 .bitAnd
  | "<<" => op 7 .shiftLeft
  | ">>" => op 7 .shiftRight
  | "+" => op 8 .add
  | "-" => op 8 .sub
  | "*" => op 9 .mul
  | "/" => op 9 .div
  | "//" => op 9 .floorDiv
  | "%" => op 9 .mod
  | _ => none

/-- A binary operator at the front of the tokens, if there is one. The whole
fails where `not` stands between operands without `in`. -/
def operator? : List Token → Option (Option Operator × List Token)
  | .keyword "or" :: ts => some (some ⟨0, .either⟩, ts)
  | .keyword "and" :: ts => some (some ⟨1, .both⟩, ts)
  | .keyword "in" :: ts => some (some ⟨3, .binary .isIn⟩, ts)
  | .keyword "not" :: .keyword "in" :: ts => some (some ⟨3, .binary .notIn⟩, ts)
  | .keyword "not" :: _ => none
  | .symbol s :: ts => some (operatorOf? s, ts)
  | ts => some (none, ts)

/-- The operator in front of an operand that a symbol stands for. -/
def signOf? : String → Option UnaryOp
  | "+" => some .plus
  | "-" => some .minus
  | "~" => some .invert
  | _ => none

/-- Whether a list of expressions ends in front of these tokens. -/
def endsList : List Token → Bool
  | [] => true
  | .newline :: _ => true
  | .symbol s :: _ => s == "=" || s == ")" || s == "]" || s == "\x7d" || s == ";"
  | _ => false

mutual

/-- An expression without a comma at its top. -/
def test : Nat → List Token → Option (Expr × List Token)
  | 0, _ => none
  | fuel + 1, ts => do
    let (x, ts) ← ranked fuel 0 ts
    match ts with
    | .keyword "if" :: ts =>
      let (condition, ts) ← ranked fuel 0 ts
      match ts with
      | .keyword "else" :: ts =>
        let (y, ts) ← test fuel ts
        return (.choose condition x y, ts)
      | _ => none
    | _ => return (x, ts)

/-- An expression of operators that bind at least as strongly as `rank`. -/
def ranked : Nat → Nat → List Token → Option (Expr × List Token)
  | 0, _, _ => none
  | fuel + 1, rank, ts =>
    match ts with
    | .keyword "not" :: ts => do
      if negationRank < rank then none
      let (x, ts) ← ranked fuel negationRank ts
      climb fuel rank (.negate x) false ts
    | ts => do
      let (x, ts) ← suffixed fuel ts
      climb fuel rank x false ts

/-- Goes on behind the operand `x` with operators of at least `rank`. The flag
says whether `x` is a comparison of this level. -/
def climb : Nat → Nat → Expr → Bool → List Token → Option (Expr × List Token)
  | 0, _, _, _, _ => none
  | fuel + 1, rank, x, compared, ts => do
    let (op, rest) ← operator? ts
    match op with
    | none => return (x, ts)
    | some op =>
      if op.rank < rank then return (x, ts)
      if compared && op.rank == comparisonRank then none
      let (y, rest) ← ranked fuel (op.rank + 1) rest
      climb fuel rank (op.join x y) (op.rank == comparisonRank) rest

/-- An operand with calls, indices and attributes behind it. -/
def suffixed : Nat → List Token → Option (Expr × List Token)
  | 0, _ => none
  | fuel + 1, ts => do
    let (x, ts) ← operand fuel ts
    suffixes fuel x ts

/-- Goes on behind `x` with calls, indices and attributes. -/
def suffixes : Nat → Expr → List Token → Option (Expr × List Token)
  | 0, _, _ => none
  | fuel + 1, x, ts =>
    match ts with
    | .symbol "." :: .name s :: ts => suffixes fuel (.attribute x s) ts
    | .symbol "." :: _ => none
    | .symbol "[" :: ts => do
      let (i, ts) ← sequence fuel false ts
      match ts with
      | .symbol "]" :: ts => suffixes fuel (.index x i) ts
      | _ => none
    | .symbol "(" :: ts => do
      let ((args, names), ts) ← arguments fuel [] [] ts
      suffixes fuel (.call x args names) ts
    | ts => some (x, ts)

/-- An operand without anything behind it. -/
def operand : Nat → List Token → Option (Expr × List Token)
  | 0, _ => none
  | fuel + 1, ts =>
    match ts with
    | .name s :: ts => some (.name s, ts)
    | .int n :: ts => some (.int n, ts)
    | .float x :: ts => some (.float x, ts)
    | .text bytes :: ts => some (.text bytes, ts)
    | .symbol "[" :: .symbol "]" :: ts => some (.list [], ts)
    | .symbol "[" :: ts => do
      let (x, ts) ← test fuel ts
      let (xs, ts) ← others fuel true [] ts
      match ts with
      | .symbol "]" :: ts => some (.list (x :: xs), ts)
      | _ => none
    | .symbol "(" :: .symbol ")" :: ts => some (.tuple [], ts)
    | .symbol "(" :: ts => do
      let (x, ts) ← sequence fuel true ts
      match ts with
      | .symbol ")" :: ts => some (x, ts)
      | _ => none
    | .symbol s :: ts => do
      let op ← signOf? s
      let (x, ts) ← suffixed fuel ts
      return (.unary op x, ts)
    | _ => none

/-- One expression, or several between commas, which make a tuple. Only with
`trailing` may a comma stand at the end. -/
def sequence : Nat → Bool → List Token → Option (Expr × List Token)
  | 0, _, _ => none
  | fuel + 1, trailing, ts => do
    let (x, ts) ← test fuel ts
    match ts with
    | .symbol "," :: _ =>
      let (xs, ts) ← others fuel trailing [] ts
      return (.tuple (x :: xs), ts)
    | _ => return (x, ts)

/-- The expressions behind further commas, collected in reverse. -/
def others : Nat → Bool → List Expr → List Token → Option (List Expr × List Token)
  | 0, _, _, _ => none
  | fuel + 1, trailing, done, ts =>
    match ts with
    | .symbol "," :: ts =>
      if endsList ts then if trailing then some (done.reverse, ts) else none
      else do
        let (x, ts) ← test fuel ts
        others fuel trailing (x :: done) ts
    | ts => some (done.reverse, ts)

/-- The arguments of a call up to its closing bracket, and their names, both
collected in reverse. -/
def arguments : Nat → List Expr → List (Option String) → List Token →
    Option ((List Expr × List (Option String)) × List Token)
  | 0, _, _, _ => none
  | fuel + 1, args, names, ts =>
    match ts with
    | .symbol ")" :: ts => some ((args.reverse, names.reverse), ts)
    | .name s :: .symbol "=" :: ts => do
      let (x, ts) ← test fuel ts
      separated fuel (x :: args) (some s :: names) ts
    | ts => do
      let (x, ts) ← test fuel ts
      separated fuel (x :: args) (none :: names) ts

/-- Goes on behind an argument of a call. -/
def separated : Nat → List Expr → List (Option String) → List Token →
    Option ((List Expr × List (Option String)) × List Token)
  | 0, _, _, _ => none
  | fuel + 1, args, names, ts =>
    match ts with
    | .symbol ")" :: ts => some ((args.reverse, names.reverse), ts)
    | .symbol "," :: ts => arguments fuel args names ts
    | _ => none

end

/-- The symbols that update what stands in front of them. -/
def updates : List String :=
  ["+=", "-=", "*=", "/=", "//=", "%=", "&=", "|=", "^=", "<<=", ">>="]

/-- How a symbol joins two expressions to a statement. -/
def assignment? (s : String) : Option (Expr → Expr → Statement) :=
  if s == "=" then some .assign else if updates.contains s then some .update else none

/-- The assignment symbol at the front of the tokens, if there is one. -/
def assignmentAt? : List Token → Option ((Expr → Expr → Statement) × List Token)
  | .symbol s :: ts => (assignment? s).map fun join => (join, ts)
  | _ => none

/-- A statement up to the end of its line. -/
def statement (fuel : Nat) (ts : List Token) : Option (Statement × List Token) := do
  let (x, ts) ← sequence fuel false ts
  let (s, ts) ← match assignmentAt? ts with
    | some (join, ts) => do
      let (y, ts) ← sequence fuel false ts
      pure (join x y, ts)
    | none => pure (Statement.discard x, ts)
  match ts with
  | [] => return (s, [])
  | .newline :: ts => return (s, ts)
  | _ => none

/-- The statements of a script, each on a line of its own. -/
def statements : Nat → List Token → Option (List Statement)
  | _, [] => some []
  | 0, _ => none
  | fuel + 1, .newline :: ts => statements fuel ts
  | fuel + 1, ts => do
    let (s, ts) ← statement (8 * ts.length + 8) ts
    let rest ← statements fuel ts
    return s :: rest

/-- The script that a text spells, if it is one. -/
def parse? (text : List Char) : Option (List Statement) := do
  let ts ← Token.scan? text
  statements (ts.length + 1) ts

end TapeMachine.Expr
