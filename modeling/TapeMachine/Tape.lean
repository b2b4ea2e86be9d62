import TapeMachine.Pairs
import TapeMachine.Word

/-!
# Tape

The memory of a machine. Every cell from address zero on can be written, and a
cell that was never written holds the value of the starting image, or zero past
its end. Low addresses live in an array that grows by whole blocks; the cells
past a limit live in a table of their own.
-/

namespace TapeMachine

/-- A resettable memory without an upper end. -/
structure Tape where
  /-- What a reset brings back. -/
  baseline : Array Word
  /-- The cells from address zero on. -/
  dense : Array Word
  /-- The written cells at or past the limit. -/
  overflow : Std.ExtTreeMap Nat Word

namespace Tape

/-- The array grows by blocks of this many cells. -/
def blockSize : Nat := 1024

/-- The least limit between the array and the table. -/
def denseLimit : Nat := 1048576

/-- The first address that is kept in the table. -/
def limit (t : Tape) : Nat := max denseLimit t.baseline.size

/-- A tape that holds an image, which is also what it resets to. -/
def ofImage (image : Array Word) : Tape := ⟨image, image, ∅⟩

/-- Forgets all writes. -/
def reset (t : Tape) : Tape := ofImage t.baseline

/-- How many cells the array has. -/
def extent (t : Tape) : Nat := t.dense.size

/-- The value of a cell. -/
def get (t : Tape) (a : Nat) : Word :=
  if h : a < t.dense.size then t.dense[a]
  else if t.limit ≤ a then t.overflow.getD a 0
  else 0

/-- How many cells the array has once it holds the cell `a`. -/
def grownExtent (limit a : Nat) : Nat := min ((a / blockSize + 1) * blockSize) limit

/-- Pads the array with zeros until it has the cell `a`. -/
def grow (dense : Array Word) (limit a : Nat) : Array Word :=
  if a < dense.size then dense
  else dense ++ Array.replicate (grownExtent limit a - dense.size) 0

/-- Writes a cell. -/
def set (t : Tape) (a : Nat) (value : Word) : Tape :=
  match t with
  | ⟨baseline, dense, overflow⟩ =>
    let limit := max denseLimit baseline.size
    if a < limit then ⟨baseline, (grow dense limit a).setIfInBounds a value, overflow⟩
    else ⟨baseline, dense, overflow.insert a value⟩

/-- Reads at a word as address, unless it is negative. -/
def read? (t : Tape) (addr : Word) : Option Word := addr.address?.map t.get

/-- Writes at a word as address, unless it is negative. -/
def write? (t : Tape) (addr value : Word) : Option Tape :=
  addr.address?.map fun a => t.set a value

/-- The cells of the array with their addresses. -/
def low (t : Tape) : List (Nat × Word) := t.dense.toList.zipIdx.map fun cell => (cell.2, cell.1)

/-- The loop over the cells that are not zero, by ascending address. -/
def scan (t : Tape) : Pairs.Sequence Nat Word :=
  (Pairs.Sequence.concat [.ofList t.low, .ofList t.overflow.toList]).sift fun _ value => value != 0

/-- The cells that are not zero, by ascending address. -/
def cells (t : Tape) : List (Nat × Word) := t.scan.toList

end Tape

end TapeMachine
