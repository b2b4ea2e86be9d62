import TapeMachine.Text.Quoted

/-!
# Options

The options of the command: `-x value` or `-x=value`, with one hyphen or two.
Options end at the first argument that is none, or behind a double hyphen.
-/

namespace TapeMachine.CommandLine

/-- What the command was asked to do. -/
structure Options where
  /-- The assembly file to compile. -/
  compile : String := ""
  /-- The image file to run. -/
  program : String := ""
  /-- The file with input values. -/
  input : String := ""
  /-- Input values in place. -/
  inline : String := ""
  output : String := "-"
  /-- Whether to write the image and not to run it. -/
  save : Bool := false
  verbose : Bool := false
  deriving DecidableEq, Repr

/-- The name under which the command reports. -/
def commandName : String := "intcode"

/-- Why the options of a command line are not taken. -/
inductive Refusal where
  /-- Help was asked for. -/
  | help
  | badSyntax (arg : String)
  | undefined (name : String)
  | missingValue (name : String)
  | badSwitch (name value : String)
  deriving DecidableEq, Repr

/-- The line that says what is wrong, if something is. -/
def Refusal.message? : Refusal → Option String
  | help => none
  | badSyntax arg => some ("bad flag syntax: " ++ arg)
  | undefined name => some ("flag provided but not defined: -" ++ name)
  | missingValue name => some ("flag needs an argument: -" ++ name)
  | badSwitch name value =>
    some ("invalid boolean value " ++ Text.quote value ++ " for -" ++ name ++ ": parse error")

/-- The lines that list the options. -/
def usage : List String :=
  ["Usage of " ++ commandName ++ ":",
    "  -I string",
    "    \tInput values, comma separated",
    "  -c string",
    "    \t.ic assembly file to compile",
    "  -i string",
    "    \tInput values file ('-' for stdin)",
    "  -o string",
    "    \tOutput (default \"-\")",
    "  -p string",
    "    \tprogram image file to run",
    "  -s\tSave compiled image to output, do not execute",
    "  -v\tVerbose mode"]

/-- What an argument is. -/
inductive Shape where
  /-- No option. -/
  | operand
  /-- The end of the options. -/
  | terminator
  | malformed
  | option (name : String) (value : Option String)
  deriving DecidableEq, Repr

/-- The name of an option and the value behind an equals sign. -/
def splitValue (cs : List Char) : Shape :=
  let (name, rest) := cs.span (· != '=')
  .option (String.ofList name)
    (match rest with
      | [] => none
      | _ :: value => some (String.ofList value))

/-- Takes an argument apart. -/
def shapeOf (arg : String) : Shape :=
  match arg.toList with
  | ['-', '-'] => .terminator
  | '-' :: '-' :: '-' :: _ | '-' :: '-' :: '=' :: _ | '-' :: '=' :: _ => .malformed
  | '-' :: '-' :: cs => splitValue cs
  | '-' :: c :: cs => splitValue (c :: cs)
  | _ => .operand

/-- The value of a switch. -/
def switch? (value : String) : Option Bool :=
  if ["1", "t", "T", "TRUE", "true", "True"].contains value then some true
  else if ["0", "f", "F", "FALSE", "false", "False"].contains value then some false
  else none

/-- How an option is set. -/
inductive Setter where
  | switch (set : Options → Bool → Options)
  | value (set : Options → String → Options)

/-- The options by name. -/
def setter? (name : String) : Option Setter :=
  match name with
  | "c" => some (.value fun o v => { o with compile := v })
  | "p" => some (.value fun o v => { o with program := v })
  | "i" => some (.value fun o v => { o with input := v })
  | "I" => some (.value fun o v => { o with inline := v })
  | "o" => some (.value fun o v => { o with output := v })
  | "s" => some (.switch fun o v => { o with save := v })
  | "v" => some (.switch fun o v => { o with verbose := v })
  | _ => none

/-- Reads options from the front of the arguments, and returns the other
arguments. -/
def parseOptions : Options → List String → Except Refusal (Options × List String)
  | o, [] => .ok (o, [])
  | o, arg :: args =>
    match shapeOf arg with
    | .operand => .ok (o, arg :: args)
    | .terminator => .ok (o, args)
    | .malformed => .error (.badSyntax arg)
    | .option name value =>
      match setter? name, value with
      | none, _ => .error (if name = "help" ∨ name = "h" then .help else .undefined name)
      | some (.switch set), none => parseOptions (set o true) args
      | some (.switch set), some value =>
        match switch? value with
        | none => .error (.badSwitch name value)
        | some b => parseOptions (set o b) args
      | some (.value set), some value => parseOptions (set o value) args
      | some (.value set), none =>
        match args with
        | [] => .error (.missingValue name)
        | value :: args => parseOptions (set o value) args

end TapeMachine.CommandLine
