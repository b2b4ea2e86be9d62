import Std.Data.ExtTreeMap

/-!
# Machine words and tables

Memory cells, registers and addresses are signed words of 64 bits whose
arithmetic wraps. Tables keyed by names are equal as soon as they have the same
entries, whatever the order in which these were put in.
-/

namespace TapeMachine

/-- A signed word of 64 bits. Addition and multiplication wrap, and division
and remainder go toward zero. -/
abbrev Word := Int64

/-- A finite map from names, listed in the order of the names. -/
abbrev Table (α : Type) := Std.ExtTreeMap String α

/-- The table with the given entries, where a later entry replaces an earlier
one of the same name. -/
def Table.ofPairs {α : Type} (pairs : List (String × α)) : Table α :=
  pairs.foldl (fun table entry => table.insert entry.1 entry.2) ∅

/-- The entries of `table` together with those of `winner`, which win. -/
def Table.override {α : Type} (table winner : Table α) : Table α :=
  winner.toList.foldl (fun table entry => table.insert entry.1 entry.2) table

/-- How many words are negative, which is also how many are not. -/
def Word.half : Nat := 0x8000000000000000

/-- The value of a word as an address of memory, unless it is negative. -/
def Word.address? (w : Word) : Option Nat :=
  if w < 0 then none else some w.toNatClampNeg

end TapeMachine
