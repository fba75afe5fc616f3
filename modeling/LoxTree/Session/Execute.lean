import LoxTree.Program
import LoxTree.Session.Evaluate
import LoxTree.Text.Newline

/-!
# Running programs

A complaint ends only the statement that it is about: it is reported and the next statement runs.
The complaints of a run are recorded when the run ends; a fault of another kind ends the run at
once. Nothing of a program runs if the scanner or the parser complained about it.
-/

namespace LoxTree

namespace Run

/-- Executes a statement; a complaint is reported and handed back. -/
def attempt (scope : Nat) (t : Tree) : Run (Option Diagnostic) :=
  tryCatch (do execute scope t; return none) fun
    | .diagnostic d => do
      note 1 ("runtime error at line " ++ toString d.line ++ ": " ++ d.message)
      say d.text
      return some d
    | .tooDeep => do
      let d := Diagnostic.runtime none .nestedTooDeeply t.firstLine
      note 1 ("recursion limit hit at line " ++ toString d.line)
      say d.text
      return some d
    | fault => throw fault

/-- Executes statements in turn and hands back the complaints. -/
def attemptAll (scope : Nat) : List Tree → Run (List Diagnostic)
  | [] => return []
  | t :: rest => do
    let complaint ← attempt scope t
    return complaint.toList ++ (← attemptAll scope rest)

/-- Runs statements in a scope and records the complaints. -/
def statements (scope : Nat) (trees : List Tree) : Run (List Diagnostic) := do
  note 1 ("run " ++ toString trees.length ++ " statement(s)")
  let errors ← attemptAll scope trees
  modify fun s => { s with runtimeErrors := s.runtimeErrors ++ errors }
  return errors

/-- Runs a tree that is a list of statements. -/
def tree (scope : Nat) (t : Tree) : Run (List Diagnostic) := do
  statements scope (← ofExcept t.items)

/-- Traces the tokens of a program. -/
def noteTokens : List Token → Run Unit
  | [] => return ()
  | t :: rest => do
    note 2 ("token [line " ++ toString t.line ++ "] " ++ t.text)
    noteTokens rest

/-- Reports complaints. -/
def reportAll : List Diagnostic → Run Unit
  | [] => return ()
  | d :: rest => do
    say d.text
    reportAll rest

/-- Runs a program in the global scope, unless there are complaints about it. -/
def source (text : String) : Run Unit := do
  let scan := Scan.ofSource text
  noteTokens scan.tokens
  let program ← ofExcept (Program.ofTokens scan.tokens)
  let errors := scan.errors ++ program.errors
  modify fun s => { s with staticErrors := errors }
  if errors.isEmpty then
    discard (statements globalScope (program.statements.map Stmt.toTree))
  else
    reportAll errors
    note 1 (toString errors.length ++ " static error(s), nothing executed")

end Run

namespace Session

/-- The session after a program. A program never fails as a whole (its complaints are reported), so
there is no other result. -/
def run (s : Session) (source : String) : Session :=
  match Run.source source s with
  | .ok _ s' => s'
  | .error _ s' => s'

/-- The session of a program in a file, from its contents; `none` if there is no such file. The file
is read before the session starts. -/
def ofFile (level : Int) (contents : Option ByteArray) : Except Fault Session :=
  match contents with
  | none => .error .fileNotFound
  | some bytes =>
    match Text.ofBytes? bytes with
    | none => .error .invalidUtf8
    | some source => .ok ((start level).run source).close

end Session

end LoxTree
