import LoxTree.Session.Execute
import LoxTree.Text.Blank

/-!
# The interactive shell

The shell runs the lines that are entered in one session. A line that ends in a semicolon is kept
back, and the next lines are added to it, until a line without one, such as an empty line, runs them
all. The words `help`, `exit` and `EOF` alone on a line are commands; they leave the lines that are
kept back alone.
-/

namespace LoxTree

/-- A line that is not source text. -/
inductive Command where
  | help | exit | endOfInput
  deriving DecidableEq, Repr

/-- What a line is. -/
inductive Entry where
  | empty
  | command (c : Command)
  | source (line : String)
  deriving DecidableEq, Repr

namespace Entry

/-- Whether a command word may have a character. -/
def isCommandChar (c : Char) : Bool :=
  c.isAlphanum || c = '_'

/-- The command with the given word. -/
def command? : String → Option Command
  | "help" => some .help
  | "exit" => some .exit
  | "EOF" => some .endOfInput
  | _ => none

/-- A line without the blanks at its ends; a question mark at its front stands for `help`. -/
def prepare (line : String) : String :=
  let stripped := Text.strip line
  match stripped.toList with
  | '?' :: rest => "help " ++ String.ofList rest
  | _ => stripped

/-- What a line is: a command if there is nothing on it but the word of one. -/
def ofLine (line : String) : Entry :=
  let prepared := prepare line
  if prepared.isEmpty then empty
  else
    let word := prepared.toList.takeWhile isCommandChar
    let argument := prepared.toList.dropWhile isCommandChar
    match command? (String.ofList word) with
    | some c => if argument.all Text.isBlank then command c else source prepared
    | none => source prepared

end Entry

/-- What the shell shows when it waits for a line and keeps none back. -/
def primaryPrompt : String :=
  "> "

/-- What the shell shows when it waits for a line to add to those that it keeps back. -/
def secondaryPrompt : String :=
  ". "

/-- The state of the shell: its session, the lines that are kept back, and the prompt for the next
line. -/
structure Shell where
  session : Session
  pending : String := ""
  prompt : String := primaryPrompt

namespace Shell

/-- What the shell says when it starts. -/
def intro : String :=
  "Welcome to lox! (Type exit to quit)"

/-- What the shell says when it is asked for help. -/
def helpText : String :=
  "Lox is a small dynamically-typed scripting language.\n\n" ++
  "Try 'var a = 1 + 2;' then 'print a * 2;'. Statements ending in ';'\n" ++
  "continue on the next line; enter an empty line to run them.\n" ++
  "Type 'exit' to quit."

/-- The shell after a line of source text. -/
def enter (s : Shell) (line : String) : Shell :=
  let source := s.pending ++ line ++ "\n"
  if line.toList.getLast? = some ';' then { s with pending := source, prompt := secondaryPrompt }
  else { session := s.session.run source, pending := "", prompt := primaryPrompt }

/-- The shell after a line, and whether it stops there. -/
def step (s : Shell) (line : String) : Shell × Bool :=
  match Entry.ofLine line with
  | .empty => (if s.pending.isEmpty then s else s.enter "", false)
  | .command .help => ({ s with session := s.session.say helpText }, false)
  | .command .exit => (s, true)
  | .command .endOfInput => ({ s with session := s.session.say "" }, true)
  | .source line => (s.enter line, false)

/-- The shell with its prompt written to the output. -/
def showPrompt (s : Shell) : Shell :=
  { s with session := { s.session with output := s.session.output ++ s.prompt } }

/-- The shell after all lines, or those up to the one where it stops. The end of the lines is
entered as the command for it. -/
def interact (s : Shell) : List String → Shell
  | [] => (s.showPrompt.step "EOF").1
  | line :: rest =>
    match s.showPrompt.step line with
    | (s', true) => s'
    | (s', false) => s'.interact rest

/-- The shell after a whole input. -/
def runInput (session : Session) (input : List String) : Shell :=
  interact { session := session.say intro } input

end Shell

/-- The lines of a text; the last one need not have an end. -/
def linesOf (text : String) : List String :=
  let pieces := text.splitOn "\n"
  if pieces.getLast? = some "" then pieces.dropLast else pieces

end LoxTree
