import Cyclomatic.Command.Run

/-!
# The program

The files that a call may look at are read from the disk into a tree.  The command is then run
in that tree, and what it leaves behind is written.
-/

namespace Cyclomatic

/-- The parts of a path from the root, where relative paths start at `here`. -/
def partsFromRoot (here : Path) (path : String) : Path :=
  let start := if path.toList.head? == some '/' then [] else here
  (Text.splitAt '/' path).foldl (fun parts part =>
    if part.isEmpty || part == "." then parts
    else if part == ".." then parts.dropLast
    else parts ++ [part]) start

/-- The paths that a command names. -/
def Command.paths : Command → List String
  | .scan request => request.path :: request.config.toList
  | .languages config => config.toList

/-- The starts of a path, part by part. -/
def startsOfPath (path : String) : List String :=
  let parts := Text.splitAt '/' path
  (List.range parts.length).map fun n => "/".intercalate (parts.take (n + 1))

/-- Add what stands at a path of the disk to a tree.  What cannot be read is left out, and so are
the folders that no scan goes into. -/
partial def load (path : String) (parts : Path) (entries : List Tree) : IO (List Tree) := do
  try
    let place ← IO.FS.realPath path
    if ← place.isDir then
      let mut entries := Tree.putFolder parts entries
      for entry in ← place.readDir do
        if entersFolder true entry.fileName || !(← entry.path.isDir) then
          entries ← load (Path.joined path entry.fileName) (parts ++ [entry.fileName]) entries
      return entries
    else
      let bytes ← IO.FS.readBinFile place
      return Tree.putFile bytes.toList parts entries
  catch _ => return entries

/-- Add a folder of the disk to a tree, without what is in it. -/
def loadFolder (path : String) (parts : Path) (entries : List Tree) : IO (List Tree) := do
  try
    let place ← IO.FS.realPath path
    return if ← place.isDir then Tree.putFolder parts entries else entries
  catch _ => return entries

/-- Add the configurations in a folder of the disk to a tree. -/
def loadConfigs (folder : Path) (entries : List Tree) : IO (List Tree) :=
  configNames.foldlM (fun entries name =>
    load (Path.joined folder.absolute name) (folder ++ [name]) entries) entries

/-- The working folder in a tree of the files that a command may look at. -/
def workingPlace (command : Command) : IO Place := do
  let here : Path := (← IO.currentDir).components.filter (!·.isEmpty)
  let mut entries ← loadConfigs here (Tree.putFolder here [])
  for path in command.paths do
    for start in startsOfPath path do
      entries ← loadFolder start (partsFromRoot here start) entries
    entries ← loadConfigs (partsFromRoot here path).dropLast entries
    entries ← load path (partsFromRoot here path) entries
  let root : Place := ⟨.folder "" entries, []⟩
  match root.find here.absolute with
  | .ok place => return place
  | .error _ => return root

/-- Write lines. -/
def writeLines (stream : IO.FS.Stream) (lines : List String) : IO Unit :=
  lines.forM fun line => stream.putStrLn line

/-- Run the program. -/
def runProgram (args : List String) : IO UInt32 := do
  let stdout ← IO.getStdout
  let stderr ← IO.getStderr
  match Invocation.ofArguments args with
  | .error usage =>
    writeLines (if usage.status == 0 then stdout else stderr) usage.lines
    return UInt32.ofNat usage.status
  | .ok call =>
    if call.verbose then writeLines stderr ["reading " ++ ", ".intercalate call.command.paths]
    let here ← workingPlace call.command
    match call.command.run ⟨← stdout.isTty⟩ here with
    | .ok outcome =>
      stderr.putStr outcome.errors
      stdout.putStr outcome.output
      return UInt32.ofNat outcome.status
    | .error trouble =>
      writeLines stderr ["Error: " ++ trouble.message]
      return UInt32.ofNat Outcome.error

end Cyclomatic

/-- The entry point. -/
def main (args : List String) : IO UInt32 := Cyclomatic.runProgram args
