import TapeMachine.Text

/-!
# Sources

A source is a text that is read to its end, where reading may also fail. Its
lines have a greatest length; a longer one ends the reading.

The text consists of characters. A sequence of bytes that is no valid UTF-8 is
not a source.
-/

namespace TapeMachine

/-- A text to be read, and how its reading fails at the end, if it does. -/
structure Source where
  text : String
  failure : Option String := none

namespace Source

/-- A line may not have this many bytes. -/
def lineLimit : Nat := 65536

/-- The parts of a text that line feeds end. The last one may lack its line feed,
but is not empty. -/
def rawLines (text : List Char) : List (List Char) :=
  let parts := Text.pieces (· == '\n') text
  if parts.getLast? = some [] then parts.dropLast else parts

/-- Whether a line is short enough. -/
def fits (line : List Char) : Bool := Text.byteLength line < lineLimit

/-- A line without the carriage return at its end. -/
def dropReturn (line : List Char) : List Char :=
  if line.getLast? = some '\r' then line.dropLast else line

/-- The lines that can be read. -/
def lines (s : Source) : List String :=
  ((rawLines s.text.toList).takeWhile fits).map fun line => String.ofList (dropReturn line)

/-- Whether a line is too long. -/
def hasLongLine (s : Source) : Bool := !(rawLines s.text.toList).all fits

/-- The text up to the first line feed, if there is one or reading does not fail. -/
def firstLine (s : Source) : Except String (List Char) :=
  let (line, rest) := s.text.toList.span (· != '\n')
  match rest, s.failure with
  | [], some failure => .error failure
  | _, _ => .ok line

/-- A text without its first `n` bytes. Of a character that is cut, every byte left
counts as a replacement character. -/
def dropBytes : Nat → List Char → List Char
  | _, [] => []
  | n, c :: cs =>
    if n = 0 then c :: cs
    else if c.utf8Size ≤ n then dropBytes (n - c.utf8Size) cs
    else List.replicate (c.utf8Size - n) (Char.ofNat 0xFFFD) ++ cs

/-- How many bytes are read at a time in search of the end of a line. -/
def blockSize : Nat := 4096

/-- What is left to read of a text after its first line, which is read in whole
blocks. -/
def afterFirstLine (cs : List Char) : List Char :=
  let (line, rest) := cs.span (· != '\n')
  if rest.isEmpty then []
  else dropBytes ((Text.byteLength line / blockSize + 1) * blockSize) cs

end Source

end TapeMachine
