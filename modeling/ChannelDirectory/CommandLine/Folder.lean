import ChannelDirectory.CommandLine.Run

/-!
# Runs in a folder

A `Folder` holds files by name, and no other folders. `Folder.run` is one run of the program
in it: what the run shows, and the folder that it leaves behind. `Folder.runAll` is several
runs in a row.

A path is walked name by name. `.` and nothing between two slashes stay where they are, `..`
leads to the folder around, and every other name leads to a file. Nothing lies below a file,
not even `.`, so a slash at the end of a path leads to no file either.
-/

namespace ChannelDirectory.CommandLine

/-- Files by name. What lies outside of the folder has the path that leads there as its
name. -/
structure Folder where
  files : KeyMap String

/-- Where a path leads. -/
inductive Place where
  /-- A folder, with the path from the own one to it, which ends in a slash or is empty. -/
  | folder (lead : String)
  /-- A file, by its name. -/
  | file (name : String)
  deriving DecidableEq

/-- How many bytes a name may have. -/
def maxNameBytes : Nat := 255

/-- How many bytes a path may have. -/
def maxPathBytes : Nat := 4095

namespace Folder

/-- The names on a path. There may be nothing between two slashes, before the first one and
after the last one. -/
def pathNames (path : String) : List String :=
  (Text.pieces (· == '/') path.toList).map String.ofList

/-- Where a path begins: a slash at its front leads to the outermost folder. -/
def start (path : String) : Place :=
  if path.toList.head? = some '/' then .folder "/" else .folder ""

/-- The step to a name. -/
def enter (folder : Folder) (place : Place) (name : String) : Except FileFault Place :=
  match place with
  | .file _ => .error .notDirectory
  | .folder lead =>
    if name = "" || name = "." then .ok place
    else if name = ".." then .ok (.folder (if lead = "/" then lead else "../" ++ lead))
    else if maxNameBytes < name.utf8ByteSize then .error .nameTooLong
    else if folder.files.contains (lead ++ name) then .ok (.file (lead ++ name))
    else .error .missing

/-- What a path leads to. -/
def content (folder : Folder) (path : String) : FileContent :=
  if maxPathBytes < path.utf8ByteSize then .error .nameTooLong
  else match (pathNames path).foldlM folder.enter (start path) with
    | .ok (.file name) => (folder.files.get? name).elim (.error .missing) .ok
    | .ok (.folder _) => .error .isDirectory
    | .error fault => .error fault

/-- Writes a file, which is created if the folder of its path exists. -/
def write (folder : Folder) (path text : String) : Except FileFault Folder :=
  if maxPathBytes < path.utf8ByteSize then .error .nameTooLong
  else
    let names := pathNames path
    let name := names.getLast?.getD ""
    let parents := names.reverse.dropWhile (· = "") |>.drop 1 |>.reverse
    match parents.foldlM folder.enter (start path) with
    | .error fault => .error fault
    | .ok (.file _) => .error .notDirectory
    | .ok (.folder lead) =>
      if name = "" || name = "." || name = ".." then .error .isDirectory
      else if maxNameBytes < name.utf8ByteSize then .error .nameTooLong
      else .ok ⟨folder.files.insert (lead ++ name) text⟩

/-- Writes what an effect saves, and reports on it. -/
def settle (folder : Folder) (path : String) (effect : Effect) : Report × Folder :=
  match effect.save with
  | none => (effect.report path none, folder)
  | some text =>
    match folder.write path text with
    | .ok folder => (effect.report path none, folder)
    | .error fault => (effect.report path (some fault), folder)

/-- Runs the program with some arguments. -/
def run (folder : Folder) (args : List String) : Report × Folder :=
  match Invocation.parse args with
  | .error refusal => (refusal.report, folder)
  | .ok invocation =>
    folder.settle invocation.data
      (invocation.carryOut (invocation.config.map folder.content) (folder.content invocation.data))

/-- Runs the program several times in a row. -/
def runAll (folder : Folder) : List (List String) → List Report × Folder
  | [] => ([], folder)
  | args :: more =>
    let (report, folder) := folder.run args
    let (reports, folder) := folder.runAll more
    (report :: reports, folder)

end Folder

end ChannelDirectory.CommandLine
