import TapeMachine.Assembler.Literal
import TapeMachine.Assembler.Operand
import TapeMachine.Source

/-!
# Assembler

The assembler reads a source line by line. A line defines an equate, or any
number of labels followed by an instruction, a data line or the call of a macro.
The lines of a macro are read again at each call, with its parameters as equates
that are forgotten afterwards. At the end the addresses of labels are added to
the terms that refer to them.

Reading that fails leaves the assembler as it was at that point.

Two things are left to the user of this library: the script language of expressions,
and the order in which the links of an entry are taken.
-/

namespace TapeMachine

/-- A macro: its parameters, its lines, and the number of the first of these. -/
structure Macro where
  line : Nat
  params : List String
  body : Array String
  deriving DecidableEq, Repr

/-- An assembler, with what it read so far. -/
structure Assembler where
  /-- Equates that every source starts with. -/
  predefined : Table String := ∅
  /-- The language of expressions. -/
  script : Script := .empty
  entries : Array Entry := #[]
  labels : Table Word := ∅
  equates : Table String := ∅
  macros : Table Macro := ∅

namespace Assembler

/-- What reading does to a state: it may fail, and what it changed by then stays. -/
abbrev PassIn (σ : Type) := EStateM AssemblyError σ

/-- What reading does to an assembler. The parts of the reading that are made of others
are written for every state that a pass can be lifted to. Such a state may also keep
account of what happens to its assembler. -/
abbrev Pass := PassIn Assembler

/-- Adds an equate that every source starts with. -/
def predefine (a : Assembler) (name text : String) : Assembler :=
  { a with predefined := a.predefined.insert name text }

/-- The equate that holds the number of the line being read. -/
def lineName : String := "LINENO"

/-- The equates that a source starts with. -/
def initialEquates (predefined : Table String) : Table String :=
  ((Table.ofPairs [(lineName, "0")]).override Instruction.defines).override predefined

/-- An assembler before the first line of a source. -/
def fresh (a : Assembler) : Assembler :=
  { predefined := a.predefined, script := a.script, equates := initialEquates a.predefined }

/-- The address of the next word. -/
def here (a : Assembler) : Word :=
  match a.entries.back? with
  | none => 0
  | some e => e.next

/-- The value of a name in expressions: the address of a label, or else the number
that an equate spells. -/
def meaning (a : Assembler) (name : String) : Option Int :=
  match a.labels[name]? with
  | some address => some address.toInt
  | none => do
    let text ← a.equates[name]?
    let w ← (Numeral.readAnnounced text.toList).word?
    return w.toInt

/-- The value of an expression. -/
def wordOf (a : Assembler) (expr : List Char) : Except AssemblyError Word :=
  Literal.wordOf a.script a.meaning expr

/-- A word of a line, where the name of an equate stands for its text. -/
def substitute (a : Assembler) (word : String) : String := (a.equates[word]?).getD word

section

variable {σ : Type}

/-- Runs a part of the reading, with its errors put into context. -/
def within (context : AssemblyError → AssemblyError) {α : Type} (p : PassIn σ α) :
    PassIn σ α := fun s =>
  match p s with
  | .ok x s => .ok x s
  | .error e s => .error (context e) s

/-- Puts equates on top of those that are there, and returns the latter. -/
def bindEquates (bindings : List (String × String)) : Pass (Table String) := fun a =>
  let inner := bindings.foldl (fun table entry => table.insert entry.1 entry.2) a.equates
  .ok a.equates { a with equates := inner }

/-- Goes back to earlier equates. -/
def restoreEquates (outer : Table String) : Pass Unit :=
  modify fun a => { a with equates := outer }

variable [MonadLiftT Pass (PassIn σ)]

/-- Runs a part of the reading with further equates, which are forgotten at its
end together with all equates that it defined itself. -/
def withEquates (bindings : List (String × String)) (p : PassIn σ Unit) : PassIn σ Unit := do
  let outer ← bindEquates bindings
  try p finally restoreEquates outer

end

/-! ## Lines -/

/-- Whether a character separates the words of a line. -/
def isSeparator (c : Char) : Bool := c == ' ' || c == ',' || c == '\t'

/-- The words of a line, with its literals replaced. -/
def wordsOf (a : Assembler) (line : String) : Except AssemblyError (List String) := do
  let cs ← Literal.expressions a.wordOf (Literal.characters line.toList)
  return (Text.fieldsBy isSeparator cs).map String.ofList

/-- Notes the number of the line being read. -/
def setLine (number : Nat) : Pass Unit :=
  modify fun a => { a with equates := a.equates.insert lineName (Nat.repr number) }

/-- Splits a line into words. -/
def readWords (line : String) : Pass (List String) := fun a =>
  match a.wordsOf line with
  | .ok words => .ok words a
  | .error e => .error e a

/-- Defines an equate from the words behind the directive. -/
def defineEquate : List String → Pass Unit
  | [name, text] => do
    let a ← get
    if a.equates.contains name then throw .equateDuplicate
    set { a with equates := a.equates.insert name text }
  | _ => throw .equateSyntax

/-- The label that a word defines. -/
def labelOf? (word : String) : Option String :=
  match word.toList.reverse with
  | ':' :: cs => some (String.ofList cs.reverse)
  | _ => none

/-- Defines a label at the address of the next word. -/
def defineLabel (label : String) : Pass Unit := do
  let a ← get
  if a.labels.contains label then throw .labelDuplicate
  set { a with labels := a.labels.insert label a.here }

/-- Adds the entry for an instruction or data line. -/
def emit (number : Nat) (words : List String) : Pass Unit := do
  let a ← get
  match Instruction.assemble a.equates words with
  | .error e => throw e
  | .ok [] => return
  | .ok terms => set { a with entries := a.entries.push ⟨number, a.here, words, terms⟩ }

section

variable {σ : Type} [MonadLiftT Pass (PassIn σ)]

/-- Defines the labels at the front of a line, and returns what follows them. -/
def defineLabels : List String → PassIn σ (List String)
  | [] => return []
  | word :: words =>
    match labelOf? word with
    | none => return word :: words
    | some label => do
      defineLabel label
      defineLabels words

/-- Reads a line, given how macros are called. -/
def readLineWith (call : Macro → String → List String → PassIn σ Unit) (number : Nat)
    (line : String) : PassIn σ Unit := do
  setLine number
  match ← readWords line with
  | [] => return
  | ".equ" :: args => defineEquate args
  | words =>
    let rest ← defineLabels words
    let a ← (get : Pass Assembler)
    match rest.map a.substitute with
    | [] => return
    | head :: args =>
      match a.macros[head]? with
      | none => emit number (head :: args)
      | some m => call m head args

end

/-! ## Macros -/

/-- A line of a macro with its local names made distinct by macro and line. -/
def localize (name : String) (number : Nat) (line : String) : String :=
  let mark := (name ++ "_" ++ Nat.repr number ++ "_").toList
  String.ofList (line.toList.flatMap fun c => if c == '@' then mark else [c])

section

variable {σ : Type}

/-- Reads the lines of a macro from the given number on. -/
def readBody (read : Nat → String → PassIn σ Unit) (name : String) :
    Nat → List String → PassIn σ Unit
  | _, [] => return
  | number, line :: lines => do
    let line := localize name number line
    within (fun e => .atLine number line (.inMacro name number e)) (read number line)
    readBody read name (number + 1) lines

variable [MonadLiftT Pass (PassIn σ)]

/-- Calls a macro, given how its lines are read. -/
def callWith (read : Nat → String → PassIn σ Unit) (m : Macro) (name : String)
    (args : List String) : PassIn σ Unit := do
  if args.length ≠ m.params.length then throw .macroSyntax
  withEquates (m.params.zip args) (readBody read name m.line m.body.toList)

/-- Reads a line on which macros may call each other up to a depth. -/
def readLine : (depth number : Nat) → (line : String) → PassIn σ Unit
  | 0 => readLineWith (callWith fun _ _ => throw .macroDepth)
  | depth + 1 => readLineWith (callWith (readLine depth))

end

/-- How deep macros may call each other. The language knows no such bound: it is one of
this library, by which the reading of macros that call themselves comes to an end. -/
def maxDepth : Nat := 1000000

/-! ## Sources -/

/-- A line without its comment and the blanks at its ends. -/
def stripped (line : String) : String :=
  String.ofList (Text.trim (line.toList.takeWhile (· != ';')))

/-- Starts a macro, and returns its name. -/
def openMacro (number : Nat) : List String → Pass String
  | [] => throw .macroSyntax
  | name :: params => do
    let a ← get
    if a.macros.contains name then throw .macroDuplicate
    set { a with macros := a.macros.insert name ⟨number + 1, params, #[]⟩ }
    return name

/-- Adds a line to the macro that is being defined. -/
def extendMacro (name line : String) : Pass Unit :=
  modify fun a =>
    let extended (m : Macro) : Macro := { m with body := m.body.push line }
    { a with macros := a.macros.alter name (Option.map extended) }

/-- Where reading stands: the last line, and the macro that is open. -/
structure Position where
  number : Nat := 0
  line : String := ""
  opened : Option String := none

section

variable {σ : Type} [MonadLiftT Pass (PassIn σ)]

/-- Reads a line of the source, which may belong to an open macro. Returns the
macro that is open behind it. -/
def readSourceLine (number : Nat) (line : String) (opened : Option String) :
    PassIn σ (Option String) := do
  match (Text.fields line.toList).map String.ofList with
  | ".macro" :: args =>
    if opened.isSome then throw .macroNesting
    let name ← openMacro number args
    return some name
  | ".endm" :: _ =>
    if opened.isNone then throw .macroClosed
    return none
  | _ =>
    match opened with
    | some name =>
      extendMacro name line
      return some name
    | none =>
      readLine maxDepth number line
      return none

/-- Reads lines one after the other. Every error says on which line it is. -/
def readLines : Position → List String → PassIn σ Position
  | p, [] => return p
  | p, line :: lines => do
    let number := p.number + 1
    let line := stripped line
    let opened ← within (.atLine number line) (readSourceLine number line p.opened)
    readLines ⟨number, line, opened⟩ lines

end

/-! ## Links -/

/-- An order in which the links of entries are taken, which may differ from entry to
entry. -/
structure LinkOrder where
  /-- The links of the entry at a place of the listing, in the order in which they are taken. -/
  arrange : (place : Nat) → (links : List (Nat × String)) → List (Nat × String)
  perm : ∀ place links, (arrange place links).Perm links

namespace LinkOrder

/-- From the first word of an entry to the last. -/
def ascending : LinkOrder := ⟨fun _ links => links, fun _ _ => .refl _⟩

/-- From the last word of an entry to the first. -/
def descending : LinkOrder := ⟨fun _ links => links.reverse, fun _ _ => List.reverse_perm _⟩

end LinkOrder

/-- Adds the address of a label to the word at a place of an entry. -/
def linkAt (labels : Table Word) (place : Nat) (label : String) :
    EStateM AssemblyError (Array Term) Unit := fun terms =>
  match labels[label]? with
  | none => .error (.labelMissing label) terms
  | some address => .ok () (terms.modify place fun t => { t with value := t.value + address })

/-- Adds addresses to words, one link after the other. What was added before a label is
missing stays. -/
def linkTerms (labels : Table Word) : List (Nat × String) → EStateM AssemblyError (Array Term) Unit
  | [] => return
  | (place, label) :: links => do
    linkAt labels place label
    linkTerms labels links

/-- Links the words of the entry at a place of the listing. -/
def linkEntry (order : LinkOrder) (labels : Table Word) (place : Nat) (e : Entry) :
    EStateM.Result AssemblyError Entry Unit :=
  match linkTerms labels (order.arrange place e.links) e.terms.toArray with
  | .ok _ terms => .ok () { e with terms := terms.toList }
  | .error error terms => .error error { e with terms := terms.toList }

/-- Links entries from a place of the listing on, up to the first label that is missing. -/
def linkEntries (order : LinkOrder) (labels : Table Word) :
    (place : Nat) → List Entry → EStateM.Result AssemblyError (List Entry) Unit
  | _, [] => .ok () []
  | place, e :: entries =>
    match linkEntry order labels place e with
    | .error error e => .error error (e :: entries)
    | .ok _ e =>
      match linkEntries order labels (place + 1) entries with
      | .error error entries => .error error (e :: entries)
      | .ok _ entries => .ok () (e :: entries)

/-- Adds the addresses of labels to all entries. If a label is missing, what was linked
by then stays. -/
def link (order : LinkOrder) : Pass Listing := fun a =>
  match linkEntries order a.labels 0 a.entries.toList with
  | .error e entries => .error e { a with entries := entries.toArray }
  | .ok _ entries => .ok ⟨entries.toArray⟩ { a with entries := entries.toArray }

/-- Ends the reading of a source: it was read in full, no macro is open, and all
labels are known. -/
def finish (order : LinkOrder) (source : Source) (p : Position) : Pass Listing := do
  if source.hasLongLine then throw .lineTooLong
  if let some failure := source.failure then throw (.readFailed failure)
  if p.opened.isSome then throw .macroOpen
  link order

/-- Assembles a source into a listing. Nothing is kept of earlier sources. An
error at the end is reported on the last line. -/
def parse {σ : Type} [MonadLiftT Pass (PassIn σ)] (order : LinkOrder) (source : Source) :
    PassIn σ Listing := do
  (modify fresh : Pass Unit)
  let p ← readLines {} source.lines
  within (.atLine p.number p.line) (liftM (finish order source p))

/-- The lines that were read before `parse` ended, with their numbers, as a verbose
assembler reports them. -/
def report (source : Source) (outcome : EStateM.Result AssemblyError Assembler Listing) :
    List String :=
  let lines := match outcome with
    | .error (.atLine number _ _) _ => source.lines.take number
    | _ => source.lines
  lines.zipIdx.map fun line => Nat.repr (line.2 + 1) ++ ": " ++ line.1

end Assembler

end TapeMachine
