import TapeMachine.Numeral

/-!
# Messages

A message is a template with places for its arguments. Numbers in a message are
grouped by thousands, and texts are put in as they are.
-/

namespace TapeMachine

/-- What a template can be filled with. -/
inductive Argument where
  | number (n : Int)
  | text (s : String)
  deriving DecidableEq, Repr

namespace Message

/-- Groups a run of digits by thousands, counted from its end. -/
def groupDigits : List Char → List Char
  | [] => []
  | d :: ds =>
    if ds.length % 3 = 0 ∧ ds ≠ [] then d :: ',' :: groupDigits ds else d :: groupDigits ds

/-- A number as messages show it: `-1,234,567`. -/
def grouped (n : Int) : String :=
  let digits := String.ofList (groupDigits (Nat.toDigits 10 n.natAbs))
  if n < 0 then "-" ++ digits else digits

/-- An argument as it stands in a message. -/
def shown : Argument → String
  | .number n => grouped n
  | .text s => s

/-- An argument in a place that does not fit it, with the name of its kind. -/
def labelled : Argument → String
  | .number n => "int64=" ++ grouped n
  | .text s => "string=" ++ s

/-- What a place of the given kind shows for an argument. -/
def place (verb : Char) (arg : Argument) : String :=
  match verb, arg with
  | 'v', _ | 'd', .number _ | 's', .text _ => shown arg
  | _, _ => "%!" ++ verb.toString ++ "(" ++ labelled arg ++ ")"

/-- Fills the places of a template from left to right, which gives the pieces of a
text. A place without an argument is marked as such; the arguments left over are
returned. -/
def fillFrom : List Char → List Argument → List String × List Argument
  | [], args => ([], args)
  | '%' :: '%' :: cs, args =>
    let (pieces, rest) := fillFrom cs args
    ("%" :: pieces, rest)
  | ['%'], args => (["%!(NOVERB)"], args)
  | '%' :: verb :: cs, [] =>
    let (pieces, rest) := fillFrom cs []
    (("%!" ++ verb.toString ++ "(MISSING)") :: pieces, rest)
  | '%' :: verb :: cs, arg :: args =>
    let (pieces, rest) := fillFrom cs args
    (place verb arg :: pieces, rest)
  | c :: cs, args =>
    let (pieces, rest) := fillFrom cs args
    (c.toString :: pieces, rest)

/-- The text of a template with its arguments. Arguments left over are listed
at the end, if any were used at all. -/
def fill (template : String) (args : List Argument) : String :=
  let (pieces, rest) := fillFrom template.toList args
  if rest.isEmpty || rest.length == args.length then String.join pieces
  else String.join pieces ++ "%!(EXTRA " ++ ", ".intercalate (rest.map labelled) ++ ")"

end Message

end TapeMachine
