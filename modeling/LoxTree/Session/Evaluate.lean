import LoxTree.Nesting
import LoxTree.Operator
import LoxTree.Session
import LoxTree.Tree.Render

/-!
# Evaluating expressions and executing statements

Operands are evaluated from left to right, and an assignment takes effect when its value is known,
so a failure leaves the effects of what came before it. Trees of the full language that are not
supported fail when they are reached.
-/

namespace LoxTree

namespace Tree

/-- The token that a tree is. -/
def asToken : Tree → Except Fault Token
  | token t => .ok t
  | _ => .error .missingPart

end Tree

namespace Run

/-- Prints or reports a line. -/
def say (line : String) : Run Unit :=
  modify (·.say line)

/-- Traces a line, if the session traces at the given level. -/
def note (level : Int) (line : String) : Run Unit :=
  modify fun s => if level ≤ s.level then s.note line else s

/-- The trace of a binding. -/
def bindingNote (verb name : String) (value : Value) : String :=
  verb ++ " " ++ name ++ ": " ++ value.typeName ++ " = " ++ value.display

/-- The value of a name as seen from a scope. -/
def readName (scope : Nat) (name : Token) : Run Value := do
  match (← get).scopes.get scope name with
  | .ok v => return v
  | .error d => throw (.diagnostic d)

/-- Assigns to a name as seen from a scope. -/
def assignName (scope : Nat) (name : Token) (value : Value) : Run Unit := do
  match (← get).scopes.assign scope name value with
  | .ok scopes => modify fun s => { s with scopes }
  | .error d => throw (.diagnostic d)

/-- Binds a name in a scope. -/
def defineName (scope : Nat) (name : String) (value : Value) : Run Unit :=
  modify fun s => { s with scopes := s.scopes.define scope name value }

/-- The value of an expression as seen from a scope, within the given room. -/
def evaluate (scope : Nat) : Nat → Tree → Run Value
  | 0, _ => throw .tooDeep
  | room + 1, t =>
    match t with
    | .literal v => if v.isLox then return v else throw (.unsupported (.literal v))
    | .grouping e => evaluate scope room e
    | .reference n => do readName scope (← ofExcept n.asToken)
    | .assign n e => do
      let value ← evaluate scope room e
      let name ← ofExcept n.asToken
      assignName scope name value
      note 2 (bindingNote "assign" name.lexeme value)
      return value
    | .unary op e => do
      let value ← evaluate scope room e
      ofExcept (applyUnary (← ofExcept op.asToken) value)
    | .binary l op r => do
      let left ← evaluate scope room l
      let right ← evaluate scope room r
      ofExcept (applyBinary (← ofExcept op.asToken) left right)
    | t => throw (.unsupported (.expression t.className))

/-- The value of an optional initializer: nil where there is none. -/
def initialValue (scope : Nat) : Tree → Run Value
  | .missing => return .nil
  | e => evaluate scope nestingRoom e

/-- Traces a statement that is about to be executed. -/
def noteStatement (t : Tree) : Run Unit := do
  if 3 ≤ (← get).level then
    note 3 ("execute " ++ (← ofExcept (t.render nestingRoom)))

/-- Executes a statement in a scope. -/
def execute (scope : Nat) (t : Tree) : Run Unit := do
  noteStatement t
  match t with
  | .expressionStmt e => discard (evaluate scope nestingRoom e)
  | .printStmt e => say (← evaluate scope nestingRoom e).display
  | .varDecl n i =>
    let value ← initialValue scope i
    let name ← ofExcept n.asToken
    defineName scope name.lexeme value
    note 2 (bindingNote "define" name.lexeme value)
  | t => throw (.unsupported (.statement t.className))

end Run

end LoxTree
