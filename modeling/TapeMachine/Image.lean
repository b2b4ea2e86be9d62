import TapeMachine.Files
import TapeMachine.Message
import TapeMachine.Sink

/-!
# Images

The text of a memory image is a single line of decimal numbers between commas.
Blanks around a number do not count.
-/

namespace TapeMachine

/-- What can be wrong with an image. -/
inductive ImageError where
  | empty
  /-- The word at an index is no number. -/
  | badWord (index : Nat) (text : String)
  | readFailed (text : String)
  | writeFailed (text : String)
  | openFailed (e : FileError)
  /-- The image of a file has an error. -/
  | inFile (name : String) (cause : ImageError)
  deriving DecidableEq, Repr

/-- The text of an image error. -/
def ImageError.message : ImageError → String
  | empty => Message.fill "image empty" []
  | badWord index text =>
    Message.fill "image word %d '%v' is not an integer" [.number index, .text text]
  | readFailed text => "image read failed: " ++ text
  | writeFailed text => "image write failed: " ++ text
  | openFailed e => "open failed: " ++ e.message
  | inFile name cause => name ++ ": " ++ cause.message

namespace Image

/-- The word that a piece of an image spells. -/
def word? (piece : List Char) : Option Word := (Numeral.readDecimal piece).word?

/-- Reads trimmed pieces of text as words. The first piece that is no word decides
the error. -/
def readWords (pieces : List (List Char)) : Except ImageError (List Word) :=
  match pieces.zipIdx.find? fun piece => (word? piece.1).isNone with
  | some (piece, index) => .error (.badWord index (String.ofList piece))
  | none => .ok (pieces.filterMap word?)

/-- The image that a text spells. -/
def parse (text : List Char) : Except ImageError (List Word) :=
  let text := Text.trim text
  if text.isEmpty then .error .empty
  else readWords ((Text.pieces (· == ',') text).map Text.trim)

/-- Reads the image on the first line of a source. -/
def read (source : Source) : Except ImageError (List Word) :=
  match source.firstLine with
  | .error failure => .error (.readFailed failure)
  | .ok line => parse line

/-- Reads the image in a file. -/
def load (files : Files) (stdin name : String) : Except ImageError (List Word) :=
  match files.openRead stdin name with
  | .error e => .error (.openFailed e)
  | .ok source =>
    match read source with
    | .error e => .error (.inFile name e)
    | .ok image => .ok image

/-- The text of an image, with the end of its line. -/
def render (image : List Word) : String :=
  ",".intercalate (image.map Numeral.ofWord) ++ "\n"

/-- Writes an image. -/
def write (sink : Sink) (image : List Word) : Except ImageError Sink :=
  match sink.put (render image) with
  | .error failure => .error (.writeFailed failure)
  | .ok sink => .ok sink

end Image

end TapeMachine
