import TapeMachine.Word

/-!
# Numerals

Integers are written in decimal, and read either in decimal or with a base
given by a leading `0x`, `0o`, `0b` or `0`. Reading tells a malformed numeral
from one that is out of range, and for the latter names the nearest word.
-/

namespace TapeMachine.Numeral

/-- An integer in decimal, with a minus sign if it is negative. -/
def ofInt (n : Int) : String :=
  if n < 0 then "-" ++ Nat.repr n.natAbs else Nat.repr n.natAbs

/-- A word in decimal. -/
def ofWord (w : Word) : String := ofInt w.toInt

/-- What a text says as a numeral. -/
inductive Reading where
  /-- The text denotes this word. -/
  | value (w : Word)
  /-- The text outgrows the words on one side, of which this is the last. -/
  | overflow (nearest : Word)
  /-- The text is no numeral. -/
  | malformed
  deriving DecidableEq, Repr

/-- The word read, if the text is a numeral in range. -/
def Reading.word? : Reading → Option Word
  | .value w => some w
  | _ => none

/-- The value of a digit: `0` to `9`, then the letters of either case. -/
def digit? (c : Char) : Option Nat :=
  if '0' ≤ c ∧ c ≤ '9' then some (c.toNat - '0'.toNat)
  else if 'a' ≤ c ∧ c ≤ 'z' then some (c.toNat - 'a'.toNat + 10)
  else if 'A' ≤ c ∧ c ≤ 'Z' then some (c.toNat - 'A'.toNat + 10)
  else none

/-- What a run of digits says as an unsigned numeral. -/
inductive Magnitude where
  | value (n : Nat)
  | overflow
  | malformed
  deriving DecidableEq, Repr

/-- Reads digits after the value `n` of those before. The first digit that
takes the value past 64 bits ends the reading, whatever follows it. With
`separated`, underscores are skipped. -/
def magnitude (base : Nat) (separated : Bool) : Nat → List Char → Magnitude
  | n, [] => .value n
  | n, c :: cs =>
    if separated && c == '_' then magnitude base separated n cs
    else
      match digit? c with
      | none => .malformed
      | some d =>
        if base ≤ d then .malformed
        else if UInt64.size ≤ n * base + d then .overflow
        else magnitude base separated (n * base + d) cs

/-- The base that a numeral announces, and the digits after the announcement.
A lone `0` in front announces octal. -/
def announced : List Char → Nat × List Char
  | '0' :: mark :: d :: ds =>
    if mark == 'b' || mark == 'B' then (2, d :: ds)
    else if mark == 'o' || mark == 'O' then (8, d :: ds)
    else if mark == 'x' || mark == 'X' then (16, d :: ds)
    else (8, mark :: d :: ds)
  | '0' :: cs => (8, cs)
  | cs => (10, cs)

/-- Whether underscores stand only after a digit and before a digit. The flag
says whether the character before was a digit. -/
def separatorsOk (hex : Bool) : Bool → List Char → Bool
  | _, [] => true
  | afterDigit, c :: cs =>
    if c == '_' then
      match cs with
      | [] => false
      | d :: _ => afterDigit && isDigit d && separatorsOk hex false cs
    else separatorsOk hex (isDigit c) cs
where
  isDigit (c : Char) : Bool :=
    c.isDigit || (hex && (('a' ≤ c && c ≤ 'f') || ('A' ≤ c && c ≤ 'F')))

/-- Whether the underscores of an unsigned numeral are placed well. A base mark
counts as a digit in front of the first underscore. -/
def wellSeparated : List Char → Bool
  | '0' :: mark :: cs =>
    if mark == 'b' || mark == 'B' || mark == 'o' || mark == 'O' then separatorsOk false true cs
    else if mark == 'x' || mark == 'X' then separatorsOk true true cs
    else separatorsOk false true (mark :: cs)
  | cs => separatorsOk false false cs

/-- An unsigned numeral whose base is announced. -/
def announcedMagnitude (cs : List Char) : Magnitude :=
  if cs.isEmpty then .malformed
  else
    let (base, digits) := announced cs
    match magnitude base true 0 digits with
    | .value n => if cs.contains '_' && !wellSeparated cs then .malformed else .value n
    | other => other

/-- An unsigned decimal numeral, without underscores. -/
def decimalMagnitude (cs : List Char) : Magnitude :=
  if cs.isEmpty then .malformed else magnitude 10 false 0 cs

/-- The largest word. -/
def greatest : Word := 9223372036854775807

/-- The smallest word. -/
def least : Word := -9223372036854775808

/-- Puts the sign back on a magnitude and fits it into a word. -/
def Magnitude.signed (negative : Bool) : Magnitude → Reading
  | .malformed => .malformed
  | .overflow => .overflow (if negative then least else greatest)
  | .value n =>
    if negative then
      if Word.half < n then .overflow least else .value (Int64.ofInt (-(n : Int)))
    else
      if Word.half ≤ n then .overflow greatest else .value (Int64.ofNat n)

/-- The sign of a numeral, and what follows it. -/
def signOf : List Char → Bool × List Char
  | '+' :: cs => (false, cs)
  | '-' :: cs => (true, cs)
  | cs => (false, cs)

/-- Reads a signed decimal numeral. -/
def readDecimal (cs : List Char) : Reading :=
  let (negative, digits) := signOf cs
  (decimalMagnitude digits).signed negative

/-- Reads a signed numeral whose base is announced. -/
def readAnnounced (cs : List Char) : Reading :=
  let (negative, digits) := signOf cs
  (announcedMagnitude digits).signed negative

end TapeMachine.Numeral
