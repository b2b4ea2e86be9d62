import TapeMachine.Text.Printable
import TapeMachine.Text.Utf8

/-!
# Quoted text

A text between double quotes on one line. What is not printable is written as an
escape, and so is every byte that encodes no character.
-/

namespace TapeMachine.Text

/-- A number in at least `width` hexadecimal digits. -/
def hexDigits (width n : Nat) : List Char :=
  let digits := Nat.toDigits 16 n
  List.replicate (width - digits.length) '0' ++ digits

/-- A character inside quotes. -/
def quotedChar (c : Char) : List Char :=
  if c == '"' || c == '\\' then ['\\', c]
  else if isPrintable c then [c]
  else if c == '\x07' then ['\\', 'a']
  else if c == '\x08' then ['\\', 'b']
  else if c == '\x0c' then ['\\', 'f']
  else if c == '\n' then ['\\', 'n']
  else if c == '\r' then ['\\', 'r']
  else if c == '\t' then ['\\', 't']
  else if c == '\x0b' then ['\\', 'v']
  else if c.toNat < 0x80 then '\\' :: 'x' :: hexDigits 2 c.toNat
  else if c.toNat < 0x10000 then '\\' :: 'u' :: hexDigits 4 c.toNat
  else '\\' :: 'U' :: hexDigits 8 c.toNat

/-- A character or stray byte inside quotes. -/
def quotedScalar : Scalar → List Char
  | .char c => quotedChar c
  | .stray b => '\\' :: 'x' :: hexDigits 2 b.toNat

/-- Bytes as a text in quotes. -/
def quoteBytes (bytes : List UInt8) : List Char :=
  '"' :: (scalars bytes).flatMap quotedScalar ++ ['"']

/-- A text in quotes. -/
def quote (s : String) : String :=
  String.ofList ('"' :: s.toList.flatMap quotedChar ++ ['"'])

end TapeMachine.Text
