import TapeMachine.Source
import TapeMachine.Text
import TapeMachine.Word

/-!
# Files

A working directory with its files, and the devices that every path from the root
can name. A path is followed one name after the other, and every name but the last
has to lead to a directory.
-/

namespace TapeMachine

/-- Why a file cannot be used. -/
inductive FileProblem where
  | missing
  | isDirectory
  | notDirectory
  | noSpace
  | nameTooLong
  | badName
  deriving DecidableEq, Repr

/-- The text of a file problem. -/
def FileProblem.message : FileProblem → String
  | missing => "no such file or directory"
  | isDirectory => "is a directory"
  | notDirectory => "not a directory"
  | noSpace => "no space left on device"
  | nameTooLong => "file name too long"
  | badName => "invalid argument"

/-- A problem with what was to be done to a path. -/
structure FileError where
  action : String
  path : String
  problem : FileProblem
  deriving DecidableEq, Repr

/-- The text of a file error. -/
def FileError.message (e : FileError) : String :=
  e.action ++ " " ++ e.path ++ ": " ++ e.problem.message

/-- Files that belong to no directory. -/
inductive Device where
  | null
  | zero
  | full
  | input
  | output
  | error
  deriving DecidableEq, Repr

/-! ## Paths -/

/-- The directory that a location is told from: the root, or a number of levels above
the working directory. -/
inductive Base where
  | root
  | above (levels : Nat)
  deriving DecidableEq, Repr

/-- A place in the tree of directories, free of detours. -/
structure Location where
  base : Base
  names : List (List Char) := []
  deriving DecidableEq, Repr

namespace Location

/-- The working directory. -/
def working : Location := ⟨.above 0, []⟩

/-- The directory that a location lies in. The root lies in itself. -/
def parent (l : Location) : Location :=
  match l.base, l.names with
  | .root, [] => l
  | .above levels, [] => ⟨.above (levels + 1), []⟩
  | base, names => ⟨base, names.dropLast⟩

/-- Goes on by a name. One dot stays, and two dots go up. -/
def step (l : Location) (name : List Char) : Location :=
  if name = ['.'] then l
  else if name = ['.', '.'] then l.parent
  else { l with names := l.names ++ [name] }

/-- The names in a path. -/
def namesOf (path : String) : List (List Char) := Text.fieldsBy (· == '/') path.toList

/-- Where the names of a path are followed from. -/
def startOf (path : String) : Location :=
  if path.toList.head? = some '/' then ⟨.root, []⟩ else working

/-- Where a path leads, if all directories on the way are there. -/
def ofPath (path : String) : Location := (namesOf path).foldl step (startOf path)

/-- The shortest path to a location. -/
def path (l : Location) : String :=
  let front := match l.base with
    | .root => ['/']
    | .above levels => (List.replicate levels ['.', '.', '/']).flatten
  String.ofList (front ++ ['/'].intercalate l.names)

end Location

/-- What a location holds. -/
inductive EntryKind where
  | directory
  | file
  | device (d : Device)
  deriving DecidableEq, Repr

/-- A tree of directories: the texts of its files by path, and the paths of
directories beside those that files lie in. -/
structure Files where
  contents : Table String := ∅
  directories : List String := []

namespace Files

/-- The files with the given paths and texts. -/
def ofPairs (pairs : List (String × String)) : Files :=
  { contents := Table.ofPairs (pairs.map fun (path, text) => ((Location.ofPath path).path, text)) }

/-- The device at a path. -/
def device? (path : String) : Option Device :=
  match path with
  | "/dev/null" => some .null
  | "/dev/zero" => some .zero
  | "/dev/full" => some .full
  | "/dev/stdin" | "/dev/fd/0" | "/proc/self/fd/0" => some .input
  | "/dev/stdout" | "/dev/fd/1" | "/proc/self/fd/1" => some .output
  | "/dev/stderr" | "/dev/fd/2" | "/proc/self/fd/2" => some .error
  | _ => none

/-- The directories that every root has, and those that devices lie in. -/
def standardDirectories : List String :=
  ["/bin", "/dev", "/dev/fd", "/etc", "/proc", "/proc/self", "/proc/self/fd", "/tmp", "/usr",
    "/var"]

/-- Whether a location is a directory. -/
def isDirectory (files : Files) (l : Location) : Bool :=
  l.names.isEmpty || standardDirectories.contains l.path || files.directories.contains l.path ||
    files.contents.keys.any fun key =>
      let other := Location.ofPath key
      other.base == l.base && l.names.length < other.names.length && l.names.isPrefixOf other.names

/-- What is at a location, if anything is. -/
def kind? (files : Files) (l : Location) : Option EntryKind :=
  match device? l.path with
  | some d => some (.device d)
  | none =>
    if files.isDirectory l then some .directory
    else if files.contents.contains l.path then some .file
    else none

/-- The greatest number of bytes in a name. -/
def nameLimit : Nat := 255

/-- The greatest number of bytes in a path. -/
def pathLimit : Nat := 4095

/-- Looks a name up in a directory. -/
def find (files : Files) (here : Location) (name : List Char) :
    Except FileProblem (Location × Option EntryKind) :=
  if nameLimit < Text.byteLength name then .error .nameTooLong
  else
    let l := here.step name
    .ok (l, files.kind? l)

/-- Goes from a directory to a directory in it. -/
def enter (files : Files) (here : Location) (name : List Char) : Except FileProblem Location :=
  match files.find here name with
  | .error problem => .error problem
  | .ok (l, some .directory) => .ok l
  | .ok (_, some _) => .error .notDirectory
  | .ok (_, none) => .error .missing

/-- Whether a name stands for a directory by itself. -/
def isDots (name : List Char) : Bool := name == ['.'] || name == ['.', '.']

/-- Follows a path up to its last name, unless that is made of dots. -/
def approach (files : Files) (path : String) :
    Except FileProblem (Location × Option (List Char)) := do
  if path.isEmpty then throw .missing
  if path.toList.contains '\x00' then throw .badName
  if pathLimit < Text.byteLength path.toList then throw .nameTooLong
  let names := Location.namesOf path
  let start := Location.startOf path
  match names.getLast? with
  | none => return (start, none)
  | some last =>
    if isDots last then return (← names.foldlM files.enter start, none)
    else return (← names.dropLast.foldlM files.enter start, some last)

/-- Whether a path asks for a directory by a slash at its end. -/
def endsInSlash (path : String) : Bool := path.toList.getLast? == some '/'

/-- What a path leads to, if anything. -/
def place (files : Files) (path : String) :
    Except FileProblem (Location × Option EntryKind) := do
  let (here, last) ← files.approach path
  match last with
  | none => return (here, some .directory)
  | some last =>
    let (l, kind) ← files.find here last
    match kind with
    | some .file | some (.device _) =>
      if endsInSlash path then throw .notDirectory else return (l, kind)
    | kind => return (l, kind)

/-! ## Reading and writing -/

/-- What the devices give to a reader. The endless ones give more than a line can
hold. -/
def deviceText (stdin : String) : Device → String
  | .input => stdin
  | .zero | .full => String.ofList (List.replicate Source.lineLimit '\x00')
  | .null | .output | .error => ""

/-- Opens a path for reading. A directory opens, but its reading fails. -/
def openRead (files : Files) (stdin path : String) : Except FileError Source :=
  match files.place path with
  | .error problem => .error ⟨"open", path, problem⟩
  | .ok (_, none) => .error ⟨"open", path, .missing⟩
  | .ok (l, some .file) => .ok { text := (files.contents[l.path]?).getD "" }
  | .ok (_, some (.device d)) => .ok { text := deviceText stdin d }
  | .ok (_, some .directory) =>
    .ok { text := "", failure := some (FileError.message ⟨"read", path, .isDirectory⟩) }

/-- Where output goes. -/
inductive Target where
  | file (path : String)
  | device (d : Device)
  deriving DecidableEq, Repr

/-- Finds where output to a path goes. No directory can be written to, and none can
be made by a slash at the end. -/
def target (files : Files) (path : String) : Except FileProblem Target := do
  let (here, last) ← files.approach path
  match last with
  | none => throw .isDirectory
  | some last =>
    if endsInSlash path then throw .isDirectory
    let (l, kind) ← files.find here last
    match kind with
    | some .directory => throw .isDirectory
    | some (.device d) => return .device d
    | some .file | none => return .file l.path

/-- Opens a path for writing. What a file held before is lost. -/
def create (files : Files) (path : String) : Except FileError (Target × Files) :=
  match files.target path with
  | .error problem => .error ⟨"open", path, problem⟩
  | .ok (.device d) => .ok (.device d, files)
  | .ok (.file key) => .ok (.file key, { files with contents := files.contents.insert key "" })

/-- Writes a text behind what a file holds. -/
def append (files : Files) (key text : String) : Files :=
  { files with contents := files.contents.modify key (· ++ text) }

/-- Stores a text at a path, if a file can be there. -/
def store (files : Files) (path text : String) : Files :=
  match files.create path with
  | .ok (.file key, files) => files.append key text
  | _ => files

end Files

end TapeMachine
