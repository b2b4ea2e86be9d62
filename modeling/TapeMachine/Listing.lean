import TapeMachine.Word

/-!
# Listings

A listing holds the words of a program together with the lines that they come
from. Its entries say where their words belong; they may leave gaps and overlap.
-/

namespace TapeMachine

/-- A word of a listing, and the label whose address linking adds to it. -/
structure Term where
  value : Word
  label : Option String := none
  deriving DecidableEq, Repr

/-- The words that one line gives. -/
structure Entry where
  line : Int
  /-- The address of the first word. -/
  ip : Word
  /-- The line, as the words that were assembled. -/
  words : List String
  terms : List Term
  deriving DecidableEq, Repr

namespace Entry

/-- The machine words of an entry. -/
def codes (e : Entry) : List Word := e.terms.map Term.value

/-- The places of an entry that refer to labels. -/
def links (e : Entry) : List (Nat × String) :=
  e.terms.zipIdx.filterMap fun term => term.1.label.map fun label => (term.2, label)

/-- The address behind the last word. -/
def next (e : Entry) : Word := e.ip + Int64.ofNat e.terms.length

/-- Whether the entry has a word at an address. -/
def covers (e : Entry) (ip : Word) : Bool := e.ip ≤ ip && ip < e.next

/-- The words of an entry with their addresses. -/
def located (e : Entry) : List (Word × Word) :=
  e.codes.zipIdx.map fun code => (e.ip + Int64.ofNat code.2, code.1)

end Entry

/-- A program as its lines. -/
structure Listing where
  entries : Array Entry := #[]

namespace Listing

/-- All words with their addresses, entry by entry. -/
def located (l : Listing) : List (Word × Word) := l.entries.toList.flatMap Entry.located

/-- The first entry with a word at an address, and the place of that word. -/
def find? (l : Listing) (ip : Word) : Option (Entry × Int) :=
  (l.entries.find? (·.covers ip)).map fun e => (e, (ip - e.ip).toInt)

/-- Puts a word at an address of an image, which is filled up with zeros. -/
def place (image : Array Word) (a : Nat) (code : Word) : Array Word :=
  let padded :=
    if a < image.size then image else image ++ Array.replicate (a + 1 - image.size) 0
  padded.setIfInBounds a code

/-- Puts words at their addresses one after the other, so that a later word
replaces an earlier one. There is no image if an address is negative. -/
def placeAll? : Array Word → List (Word × Word) → Option (Array Word)
  | image, [] => some image
  | image, (ip, code) :: rest =>
    match ip.address? with
    | none => none
    | some a => placeAll? (place image a code) rest

/-- The memory image of a listing. -/
def image? (l : Listing) : Option (Array Word) := placeAll? #[] l.located

end Listing

end TapeMachine
