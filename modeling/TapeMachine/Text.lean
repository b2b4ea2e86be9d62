/-!
# Text

Lines and fields are lists of characters. This module says what a blank is, and
how a text is trimmed and taken apart. Every text that is read is taken to be valid
UTF-8; where its bytes matter, they are those of its characters.
-/

namespace TapeMachine.Text

/-- Whether a character is white space, in any of its widths. -/
def isBlank (c : Char) : Bool :=
  let n := c.toNat
  (9 ≤ n && n ≤ 13) || n == 32 || n == 0x85 || n == 0xA0 || n == 0x1680 ||
    (0x2000 ≤ n && n ≤ 0x200A) || n == 0x2028 || n == 0x2029 || n == 0x202F || n == 0x205F ||
    n == 0x3000

/-- Whether a code point lies in one of the ranges, both ends included. -/
def within (ranges : Array (Nat × Nat)) (n : Nat) : Bool :=
  ranges.any fun range => range.1 ≤ n && n ≤ range.2

/-- The text without the blanks at its two ends. -/
def trim (cs : List Char) : List Char :=
  ((cs.dropWhile isBlank).reverse.dropWhile isBlank).reverse

/-- Puts a character in front of the first piece, or opens a new piece in front
if the character is a separator. -/
def addToPieces (isSeparator : Char → Bool) (c : Char) : List (List Char) → List (List Char)
  | [] => [[c]]
  | first :: others => if isSeparator c then [] :: first :: others else (c :: first) :: others

/-- The pieces of a text between separators. There is one more of them than
there are separators. -/
def pieces (isSeparator : Char → Bool) (cs : List Char) : List (List Char) :=
  cs.foldr (addToPieces isSeparator) [[]]

/-- The pieces of a text between separators, without the empty ones. -/
def fieldsBy (isSeparator : Char → Bool) (cs : List Char) : List (List Char) :=
  (pieces isSeparator cs).filter (!·.isEmpty)

/-- The fields of a text between blanks. -/
def fields (cs : List Char) : List (List Char) := fieldsBy isBlank cs

/-- How many bytes a text takes in UTF-8. -/
def byteLength (cs : List Char) : Nat :=
  cs.foldl (fun n c => n + c.utf8Size) 0

end TapeMachine.Text
