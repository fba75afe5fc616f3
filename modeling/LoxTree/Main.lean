import LoxTree.CommandLine

/-!
# The command line program

Carries out the command that the arguments spell on the files of the machine. The parts of the disk
that the command can look at are read first, the command is carried out, and what it changed and
wrote is written back. The shell reads its lines one by one.
-/

namespace LoxTree

/-- The names of a path from the root, as text. -/
def spotText (spot : Spot) : String :=
  "/" ++ "/".intercalate spot

/-- The spots that following names from a directory passes. -/
def passedSpots (directory : Spot) : List String → List Spot
  | [] => []
  | name :: rest =>
    let spot := if name = ".." then directory.dropLast else directory ++ [name]
    spot :: passedSpots spot rest

/-- The disk with what lies at a spot on the machine. -/
def surveySpot (disk : Disk) (spot : Spot) : IO Disk := do
  let path := (← IO.currentDir) / spotText spot
  if ← path.isDir then
    return { disk with directories := spot :: disk.directories }
  else if ← path.pathExists then
    return disk.put spot (← IO.FS.readBinFile path)
  else return disk

/-- The disk with what lies on the way of a path on the machine. -/
def surveyPath (disk : Disk) (p : FilePath) : IO Disk :=
  (passedSpots (if p.root.isEmpty then disk.home else []) p.names).foldlM surveySpot disk

/-- The paths that a task looks at. -/
def Task.paths : Task → List FilePath
  | .emitTree file => [FilePath.ofText file, (FilePath.ofText file).extend ".ast.json"]
  | .printTree file | .runTree file | .runProgram file => [FilePath.ofText file, Job.traceFile]
  | .shell => [Job.traceFile]

/-- Writes the files of the machine that changed. -/
def writeBack (before after : Disk) : IO Unit :=
  (before.changes after).forM fun (spot, bytes) => IO.FS.writeBinFile (spotText spot) bytes

/-- The shell on the lines of standard input, from its first prompt on. What a line wrote is shown
before the next line is read. -/
partial def shellLoop (shell : Shell) : IO Session := do
  let shown := shell.showPrompt
  IO.print shown.session.output
  (← IO.getStdout).flush
  let quiet := { shown with session := { shown.session with output := "" } }
  let line ← (← IO.getStdin).getLine
  let (next, stop) := quiet.step (if line.isEmpty then "EOF" else line)
  if stop then
    IO.print next.session.output
    return next.session
  else shellLoop next

/-- The disk of the machine as far as a task looks at it. -/
def surveyTask (task : Task) : IO Disk := do
  let home := (FilePath.ofText (← IO.currentDir).toString).names
  task.paths.foldlM surveyPath (Disk.ofFiles home [])

/-- What stands for a fault that ends a command. -/
def Fault.lastWords (f : Fault) : String :=
  "Error: " ++ f.message?.getD "the command cannot be carried out"

/-- Carries out a task other than the shell and gives its status. -/
def runTask (args : List String) (task : Task) : IO UInt32 := do
  let disk ← surveyTask task
  let outcome := runCommand args disk ""
  writeBack disk outcome.console.disk
  IO.print outcome.console.stdout
  IO.eprint outcome.console.stderr
  match outcome.status with
  | .ok status => return status.toUInt32
  | .error f =>
    IO.eprintln f.lastWords
    return 1

/-- Runs the shell on standard input. -/
def runShellTask (verbosity : Nat) : IO UInt32 := do
  let session ← shellLoop { session := (Session.start verbosity).say Shell.intro }
  if 0 < session.level then IO.FS.writeFile Job.traceFile.text session.trace
  return 0

end LoxTree

open LoxTree in
/-- The program. -/
def main (args : List String) : IO UInt32 :=
  match Options.parse args with
  | .ok o =>
    match o.task with
    | .shell => runShellTask o.verbosity
    | task => runTask args task
  | .error _ => runTask args .shell
