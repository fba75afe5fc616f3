import LoxTree.CommandLine.Options
import LoxTree.Disk
import LoxTree.Json.Read
import LoxTree.Json.Write
import LoxTree.Shell
import LoxTree.Text.Newline
import LoxTree.Tree.Encode

/-!
# Commands

A command runs a program, runs a tree that was written to a file, writes the tree of a program to a
file, prints it, or starts the shell. It works on files, writes to the output and the error stream,
and ends with a status or a fault. Tracing goes to the file `debug.txt`, which is made new before
anything is read.
-/

namespace LoxTree

/-- How a command ends before its end. -/
inductive Ending where
  | exit (status : Nat)
  | fault (f : Fault)

/-- What a command works on. -/
structure Console where
  disk : Disk
  stdout : String := ""
  stderr : String := ""

/-- A step of a command. -/
abbrev Job := EStateM Ending Console

namespace Job

/-- The status when the program has complaints of the scanner or the parser. -/
def staticErrorStatus : Nat := 65

/-- The status when statements of the program failed. -/
def runtimeErrorStatus : Nat := 70

/-- The status when a file is not there. -/
def missingFileStatus : Nat := 1

/-- The status when the arguments are wrong. -/
def usageStatus : Nat := 2

/-- The file that traces go to. -/
def traceFile : FilePath :=
  FilePath.ofText "debug.txt"

/-- Writes to the output. -/
def write (text : String) : Job Unit :=
  modify fun c => { c with stdout := c.stdout ++ text }

/-- Writes a line to the output. -/
def writeLine (line : String) : Job Unit :=
  write (line ++ "\n")

/-- Writes a line to the error stream. -/
def complain (line : String) : Job Unit :=
  modify fun c => { c with stderr := c.stderr ++ line ++ "\n" }

/-- The result of a step without files, or its fault. -/
def ofFault {α : Type} : Except Fault α → Job α
  | .ok a => return a
  | .error f => throw (.fault f)

/-- Writes a file. -/
def writeFile (p : FilePath) (text : String) : Job Unit := do
  match (← get).disk.locate p with
  | .file spot _ | .vacant spot =>
    modify fun c => { c with disk := c.disk.put spot text.toUTF8 }
  | .directory => throw (.fault .isDirectory)
  | .unnameable => throw (.fault .nameTooLong)
  | .nowhere => throw (.fault .fileNotFound)

/-- The text of the file that an argument names. -/
def readSource (argument : String) : Job String := do
  let p := FilePath.ofText argument
  match (← get).disk.locate p with
  | .file _ bytes =>
    match Text.ofBytes? bytes with
    | some text => return text
    | none => throw (.fault .invalidUtf8)
  | .directory => throw (.fault .isDirectory)
  | .unnameable => throw (.fault .nameTooLong)
  | .vacant _ | .nowhere =>
    complain ("Error: file " ++ p.text ++ " not found")
    throw (.exit missingFileStatus)

/-- The trees of a program; its complaints end the command. -/
def parseSource (source : String) : Job (List Tree) := do
  let program ← ofFault (Program.ofSource source)
  if program.errors.isEmpty then return program.statements.map Stmt.toTree
  else
    program.errors.forM fun d => writeLine d.text
    throw (.exit staticErrorStatus)

/-- Writes the tree of a program to a file beside it. -/
def emitTree (argument : String) : Job Unit := do
  let trees ← parseSource (← readSource argument)
  let data ← ofFault ((Tree.list trees).encode nestingRoom)
  let target := (FilePath.ofText argument).extend ".ast.json"
  writeFile target (Json.writeIndented data)
  writeLine target.text

/-- Prints the tree of every statement of a program. -/
def printTree (argument : String) : Job Unit := do
  let trees ← parseSource (← readSource argument)
  trees.forM fun t => do writeLine (← ofFault (t.render nestingRoom))

/-- Takes over what a session wrote. -/
def finish (s : Session) : Job Unit := do
  write s.output
  modify fun c => { c with stderr := c.stderr ++ s.stderr }
  if 0 < s.level then writeFile traceFile s.trace

/-- Makes the steps of a session and takes over what it wrote, also when it fails. -/
def inSession {α : Type} (s : Session) (act : Run α) : Job Session := do
  match act s with
  | .ok _ s' =>
    finish s'
    return s'
  | .error f s' =>
    finish s'
    throw (.fault f)

/-- Ends with the status for failed statements if there were any. -/
def endWithStatus (s : Session) : Job Unit := do
  if s.hadRuntimeError then throw (.exit runtimeErrorStatus)

/-- Runs the tree in a file. -/
def runTree (s : Session) (argument : String) : Job Unit := do
  let data ← ofFault (Json.read (← readSource argument))
  let tree ← ofFault (Tree.decode nestingRoom data)
  endWithStatus (← inSession s (Run.tree globalScope tree))

/-- Runs the program in a file. -/
def runProgram (s : Session) (argument : String) : Job Unit := do
  let s ← inSession s (Run.source (← readSource argument))
  if s.hadError then throw (.exit staticErrorStatus)
  endWithStatus s

/-- Runs the shell on an input. -/
def runShell (s : Session) (input : String) : Job Unit :=
  finish (Shell.runInput s (linesOf (Text.unifyNewlines input))).session

/-- A session at the start; its trace file is made new. -/
def startSession (level : Nat) : Job Session := do
  if 0 < level then writeFile traceFile ""
  return Session.start level

/-- What the settings ask for, on the given input. -/
def ofOptions (o : Options) (input : String) : Job Unit := do
  match o.task with
  | .emitTree file => emitTree file
  | .printTree file => printTree file
  | .runTree file => runTree (← startSession o.verbosity) file
  | .runProgram file => runProgram (← startSession o.verbosity) file
  | .shell => runShell (← startSession o.verbosity) input

/-- How a command is used. -/
def usage : String :=
  "usage: lox [-h] [-v] [--emit-ast LOX_FILE | --ast AST_JSON_FILE | --print-ast LOX_FILE] " ++
  "[program]"

/-- The command that arguments spell. -/
def ofArguments (args : List String) (input : String) : Job Unit := do
  match Options.parse args with
  | .ok o => ofOptions o input
  | .error .help => writeLine usage
  | .error .usage =>
    complain usage
    throw (.exit usageStatus)

end Job

/-- What a command leaves behind: its status or fault, and what it worked on. -/
structure Outcome where
  status : Except Fault Nat
  console : Console

/-- Carries out the command that arguments spell. -/
def runCommand (args : List String) (disk : Disk) (input : String) : Outcome :=
  match Job.ofArguments args input { disk } with
  | .ok _ console => ⟨.ok 0, console⟩
  | .error (.exit status) console => ⟨.ok status, console⟩
  | .error (.fault f) console => ⟨.error f, console⟩

end LoxTree
