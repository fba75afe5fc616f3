import LoxTree.Token

/-!
# Diagnostics

A diagnostic is a complaint about a program together with the place it is about. The complaint is
the cause, and `Complaint.message` gives its wording; `Diagnostic.text` adds the place in the form
that belongs to the stage that found it. Scanning complains about a line, parsing about a token, and
running about a token where it knows one.
-/

namespace LoxTree

/-- What is wrong. -/
inductive Complaint where
  /-- No token starts with this character. -/
  | unexpectedCharacter (c : Char)
  /-- The program ends inside a string. -/
  | unterminatedString
  | expectExpression
  | expectClosingParen
  | expectVariableName
  /-- A variable declaration lacks its semicolon. -/
  | expectDeclarationEnd
  /-- A print statement lacks its semicolon. -/
  | expectValueEnd
  /-- An expression statement lacks its semicolon. -/
  | expectStatementEnd
  /-- Something follows an expression that should stand alone. -/
  | expectExpressionEnd
  /-- The left side of an assignment is not a variable. -/
  | invalidTarget
  | nestedTooDeeply
  | undefinedVariable (name : String)
  | operandNotNumber
  | operandNotBoolean
  | operandsNotNumbers
  /-- The operands of a sum are neither two numbers nor two strings. -/
  | operandsNotAddable
  /-- A complaint in words of its own. -/
  | other (message : String)
  deriving DecidableEq, Repr

/-- The wording of a complaint. -/
def Complaint.message : Complaint → String
  | unexpectedCharacter c => "Unexpected character '" ++ c.toString ++ "'."
  | unterminatedString => "Unterminated string."
  | expectExpression => "Expect expression."
  | expectClosingParen => "Expect ')' after expression."
  | expectVariableName => "Expect variable name."
  | expectDeclarationEnd => "Expect ';' after variable declaration."
  | expectValueEnd => "Expect ';' after value."
  | expectStatementEnd => "Expect ';' after expression."
  | expectExpressionEnd => "Expect end of expression."
  | invalidTarget => "Invalid assignment target."
  | nestedTooDeeply => "Expression nested too deeply."
  | undefinedVariable name => "Undefined variable '" ++ name ++ "'."
  | operandNotNumber => "Operand must be a number."
  | operandNotBoolean => "Operand must be a boolean."
  | operandsNotNumbers => "Operands must be numbers."
  | operandsNotAddable => "Operands must be two numbers or two strings."
  | other message => message

/-- A complaint with its place. -/
inductive Diagnostic where
  /-- A complaint of no particular stage. -/
  | general (complaint : Complaint) (line : Int)
  /-- Found while scanning. -/
  | lexical (complaint : Complaint) (line : Int)
  /-- Found while parsing. -/
  | grammatical (token : Token) (complaint : Complaint)
  /-- Found while running. -/
  | runtime (token : Option Token) (complaint : Complaint) (line : Int)
  /-- A name that was never defined. -/
  | undefinedName (token : Token)
  /-- An operand of the wrong type. -/
  | mistyped (token : Option Token) (complaint : Complaint) (line : Int)
  deriving DecidableEq, Repr

namespace Diagnostic

/-- The complaint of a diagnostic. -/
def complaint : Diagnostic → Complaint
  | general c _ => c
  | lexical c _ => c
  | grammatical _ c => c
  | runtime _ c _ => c
  | undefinedName t => .undefinedVariable t.lexeme
  | mistyped _ c _ => c

/-- The wording of a diagnostic without its place. -/
def message (d : Diagnostic) : String :=
  d.complaint.message

/-- The line of a diagnostic. -/
def line : Diagnostic → Int
  | general _ l => l
  | lexical _ l => l
  | grammatical t _ => t.line
  | runtime _ _ l => l
  | undefinedName t => t.line
  | mistyped _ _ l => l

/-- The token that a diagnostic is about. -/
def token? : Diagnostic → Option Token
  | general _ _ => none
  | lexical _ _ => none
  | grammatical t _ => some t
  | runtime t _ _ => t
  | undefinedName t => some t
  | mistyped t _ _ => t

/-- The place of a runtime diagnostic, after its message. -/
def withLine (message : String) (line : Int) : String :=
  message ++ "\n[line " ++ toString line ++ "]"

/-- A diagnostic as it is shown. -/
def text (d : Diagnostic) : String :=
  match d with
  | general c _ => c.message
  | lexical c l => "[line " ++ toString l ++ "] Error: " ++ c.message
  | grammatical t c =>
    let place := if t.kind = .eof then "at end" else "at '" ++ t.lexeme ++ "'"
    "[line " ++ toString t.line ++ "] Error " ++ place ++ ": " ++ c.message
  | runtime _ _ l => withLine d.message l
  | undefinedName t => withLine d.message t.line
  | mistyped _ _ l => withLine d.message l

/-- The line of a runtime complaint: the given one, else that of the token, else zero. -/
def lineOf (token : Option Token) (line : Option Int) : Int :=
  line.getD ((token.map Token.line).getD 0)

/-- A wrong operand of the given operator. -/
def mistypedAt (operator : Token) (complaint : Complaint) : Diagnostic :=
  mistyped (some operator) complaint operator.line

end Diagnostic

end LoxTree
