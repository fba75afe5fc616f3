import LoxTree.Fault
import LoxTree.Nesting
import LoxTree.Tree

/-!
# Rendering of trees

The rendering of a tree makes its nesting visible: a node is its operator or a word for its class,
followed by its parts, between parentheses. `Tree.outline` says what stands between the parentheses,
and `Tree.render` renders the parts in turn. Every level of nesting takes three units of room.
-/

namespace LoxTree

namespace Tree

/-- The lexeme of a tree that is a token. -/
def lexeme : Tree → Except Fault String
  | token t => .ok t.lexeme
  | _ => .error .missingPart

/-- The items of a tree that is a list. -/
def items : Tree → Except Fault (List Tree)
  | list items => .ok items
  | _ => .error .wrongType

/-- The name of a node that has one. -/
def nameField : Tree → Except Fault Tree
  | reference n | assign n _ | getProperty _ n | setProperty _ n _ | varDecl n _
  | functionDecl n _ _ | classDecl n _ _ => .ok n
  | _ => .error .missingPart

end Tree

/-- The text of a literal inside a tree: strings stand between double quotes. -/
def Value.literalText : Value → String
  | .absent => "<missing>"
  | .string s => "\"" ++ s ++ "\""
  | v => v.display

/-- A part of a rendering: a text, or a tree that is rendered in turn. -/
inductive RenderPart where
  | text (s : String)
  | tree (t : Tree)

/-- A rendering one level deep. -/
inductive Outline where
  /-- The text of a leaf. -/
  | leaf (s : String)
  /-- A heading and parts between parentheses. -/
  | parens (heading : String) (parts : List RenderPart)

namespace Tree

/-- The rendering of a tree one level deep. -/
def outline : Tree → Except Fault Outline
  | literal v => .ok (.leaf v.literalText)
  | grouping e => .ok (.parens "group" [.tree e])
  | unary op r => do return .parens (← op.lexeme) [.tree r]
  | binary l op r => do return .parens (← op.lexeme) [.tree l, .tree r]
  | logical l op r => do return .parens (← op.lexeme) [.tree l, .tree r]
  | reference n => do return .leaf (← n.lexeme)
  | assign n v => do return .parens "=" [.text (← n.lexeme), .tree v]
  | call c _ as => do return .parens "call" (.tree c :: (← as.items).map .tree)
  | getProperty o n => do return .parens "." [.tree o, .text (← n.lexeme)]
  | setProperty o n v => do return .parens "=" [.tree o, .text (← n.lexeme), .tree v]
  | this _ => .ok (.leaf "this")
  | super _ m => do return .parens "super" [.text (← m.lexeme)]
  | expressionStmt e => .ok (.parens ";" [.tree e])
  | printStmt e => .ok (.parens "print" [.tree e])
  | varDecl n missing => do return .parens "var" [.text (← n.lexeme)]
  | varDecl n i => do return .parens "var" [.text (← n.lexeme), .tree i]
  | block ss => do return .parens "block" ((← ss.items).map .tree)
  | ifStmt c t missing => .ok (.parens "if" [.tree c, .tree t])
  | ifStmt c t e => .ok (.parens "if-else" [.tree c, .tree t, .tree e])
  | whileStmt c b => .ok (.parens "while" [.tree c, .tree b])
  | functionDecl n ps b => do
    let params ← (← ps.items).mapM lexeme
    let heading := [.text (← n.lexeme), .text ("(" ++ " ".intercalate params ++ ")")]
    return .parens "fun" (heading ++ (← b.items).map .tree)
  | returnStmt _ missing => .ok (.leaf "(return)")
  | returnStmt _ v => .ok (.parens "return" [.tree v])
  | classDecl n s ms => do
    let name ← n.lexeme
    let parent ← match s with
      | missing => pure []
      | s => do pure [.text ("< " ++ (← (← s.nameField).lexeme))]
    return .parens "class" (.text name :: parent ++ (← ms.items).map .tree)
  | missing => .error (.unsupported (.rendering "NoneType"))
  | list _ => .error (.unsupported (.rendering "list"))
  | token _ => .error (.unsupported (.rendering "lox.tokens.Token"))

/-- The rendering of a tree, within the given room. -/
def render : Nat → Tree → Except Fault String
  | room + 3, t => do
    match ← t.outline with
    | .leaf s => return s
    | .parens heading parts =>
      let texts ← parts.mapM fun
        | .text s => pure s
        | .tree part => render room part
      return "(" ++ " ".intercalate (heading :: texts) ++ ")"
  | _, _ => .error .tooDeep

end Tree

/-- The rendering of data that stand where a tree should: only a string has one, itself. -/
def Value.renderBare : Value → Except Fault String
  | .string s => .ok s
  | v => .error <| .unsupported <| .rendering <|
    match v with
    | .boolean _ => "bool"
    | .number _ => "float"
    | .nil => "lox.types.NilVal"
    | v => v.typeName

end LoxTree
