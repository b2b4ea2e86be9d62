import TapeMachine.CommandLine
import TapeMachine.Expr.Eval

/-!
# Main program

Reads the files that the command line names, runs the command on them, and
writes what it leaves.
-/

open TapeMachine

/-- The text of a file, if it can be read. -/
def readIfPresent (path : String) : IO (Option String) := do
  try
    let text ← IO.FS.readFile path
    return some text
  catch _ => return none

/-- The path in the form that names a file or a directory once. -/
def settled (path : String) : String := (Location.ofPath path).path

/-- All locations on the way of a path. -/
def visited (path : String) : List String :=
  let names := Location.namesOf path
  (List.range (names.length + 1)).map fun n =>
    ((names.take n).foldl Location.step (Location.startOf path)).path

/-- The paths that a command may read. -/
def sourcesOf (options : CommandLine.Options) : List String :=
  [options.compile, options.program, options.input]

/-- Whether a command reads the standard input. -/
def readsInput (options : CommandLine.Options) : Bool :=
  options.input == "-" ||
    (sourcesOf options).any fun path => Files.device? (settled path) == some .input

/-- The files and directories on the ways of all paths that a command names. -/
def gatherFiles (options : CommandLine.Options) : IO Files := do
  let here ← IO.currentDir
  let mut contents : Table String := ∅
  let mut directories := []
  for path in options.output :: sourcesOf options do
    for candidate in (visited path).filter fun candidate => (Files.device? candidate).isNone do
      if ← (here / candidate).isDir then
        directories := candidate :: directories
      else if let some text ← readIfPresent candidate then
        contents := contents.insert candidate text
  return { contents, directories }

/-- Writes the output file, if the command changed it. -/
def writeOutput (options : CommandLine.Options) (before after : Files) : IO Unit := do
  let key := settled options.output
  if let some text := after.contents[key]? then
    if before.contents[key]? != some text then IO.FS.writeFile key text

/-- The setting of the command. No program comes near to the bound. -/
def setting : CommandLine.Setting where
  bound := 1000000000000000000
  script := Expr.script
  order := .ascending

/-- Runs the command with its arguments. -/
def main (args : List String) : IO UInt32 := do
  let options := match CommandLine.parseOptions {} args with
    | .ok (options, _) => options
    | .error _ => {}
  let files ← gatherFiles options
  let stdin ← if readsInput options then (← IO.getStdin).readToEnd else pure ""
  let (ending, world) := CommandLine.run setting args { files, stdin }
  writeOutput options files world.files
  (← IO.getStdout).putStr world.stdout
  (← IO.getStderr).putStr world.stderr
  match ending with
  | .exit code => return code.toUInt32
  | .unfinished =>
    (← IO.getStderr).putStrLn (CommandLine.commandName ++ ": out of bounds")
    return 1
