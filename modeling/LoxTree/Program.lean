import LoxTree.Nesting
import LoxTree.Program.Rule
import LoxTree.Token.Scan

/-!
# Programs

A program is a list of declarations up to the end marker:

    program     -> declaration* EOF
    declaration -> "var" IDENTIFIER ("=" expression)? ";" | statement
    statement   -> "print" expression ";" | expression ";"

When a declaration fails, its complaint is recorded and the parser resumes behind the next semicolon
or before the next word that starts a statement, so that one pass finds one complaint for each
broken statement. `Program.ofTokens` parses a token list, `Program.ofSource` a source text, and
`Standalone.ofTokens` a single expression.
-/

namespace LoxTree

namespace Parse

/-- A declaration of a variable, after its keyword. -/
def varDeclaration (room : Nat) : Parse Stmt := do
  let name ← expect .identifier .expectVariableName
  let initializer ← match ← accept [.equal] with
    | some _ => some <$> Rule.parse room .expression
    | none => pure none
  let _ ← expect .semicolon .expectDeclarationEnd
  return .var (← newNode) name initializer

/-- A print statement, after its keyword. -/
def printStatement (room : Nat) : Parse Stmt := do
  let value ← Rule.parse room .expression
  let _ ← expect .semicolon .expectValueEnd
  return .print (← newNode) value

/-- An expression statement. -/
def expressionStatement (room : Nat) : Parse Stmt := do
  let e ← Rule.parse room .expression
  let _ ← expect .semicolon .expectStatementEnd
  return .expression (← newNode) e

/-- A declaration or statement. -/
def statement (room : Nat) : Parse Stmt := do
  match ← accept [.kwVar] with
  | some _ => varDeclaration room
  | none =>
    match ← accept [.kwPrint] with
    | some _ => printStatement room
    | none => expressionStatement room

/-- The tokens from where parsing resumes, after a token of the given kind: at once if that was a
semicolon, else before the next word that starts a statement. -/
def resumeAfter (previous : Kind) : List Token → List Token
  | [] => []
  | t :: rest =>
    if previous = .semicolon || t.kind ∈ Kind.statementStarts then t :: rest
    else resumeAfter t.kind rest

/-- Skips at least one token, up to where parsing resumes. -/
def synchronize : Parse Unit :=
  modify fun s =>
    { s with rest := match s.rest with
      | [] => []
      | t :: rest => resumeAfter t.kind rest }

/-- A declaration; one that fails is recorded and skipped. -/
def declaration (room : Nat) : Parse (Option Stmt) :=
  tryCatch (some <$> statement room) fun
    | .diagnostic d => do record d; synchronize; return none
    | .tooDeep => do record (.grammatical (← peek) .nestedTooDeeply); synchronize; return none
    | fault => throw fault

/-- Declarations up to the end marker. Every declaration consumes a token, so the number of tokens
bounds the rounds. -/
def declarations (room : Nat) : Nat → Parse (List Stmt)
  | 0 => return []
  | rounds + 1 => do
    if (← get).rest.isEmpty then return []
    else
      let stmt ← declaration room
      return stmt.toList ++ (← declarations room rounds)

/-- An expression that stands alone; the first complaint of those recorded is thrown. -/
def standalone (room : Nat) : Parse Expr := do
  let e ← tryCatch (Rule.parse room .expression) fun
    | .tooDeep => complain .nestedTooDeeply
    | fault => throw fault
  unless (← get).rest.isEmpty do
    record (.grammatical (← peek) .expectExpressionEnd)
  match (← get).errors with
  | d :: _ => throw (.diagnostic d)
  | [] => return e

end Parse

/-- The state at the start of parsing: the tokens before the first end marker, and that marker. A
list without one ends with a marker on the line of its last token. -/
def ParseState.ofTokens (tokens : List Token) : ParseState where
  rest := tokens.takeWhile fun t => t.kind ≠ .eof
  ending := (tokens.find? fun t => t.kind = .eof).getD
    (Token.eof ((tokens.getLast?.map Token.line).getD 1))

/-- The token list that the parser works on: the given one, with an end marker if its last token is
none. -/
def withEnding (tokens : List Token) : List Token :=
  match tokens.getLast? with
  | some t => if t.kind = .eof then tokens else tokens ++ [Token.eof t.line]
  | none => [Token.eof 1]

/-- A parsed program. -/
structure Program where
  statements : List Stmt
  /-- The complaints in the order in which they were recorded. -/
  errors : List Diagnostic
  /-- The number of tokens consumed. -/
  position : Nat
  /-- The number of nodes made, also for failed declarations and the targets of assignments. -/
  nodes : Nat

/-- An expression that was parsed alone. -/
structure Standalone where
  result : Except Fault Expr
  /-- The complaints recorded on the way. -/
  errors : List Diagnostic
  /-- The number of tokens consumed. -/
  position : Nat

/-- The program that tokens make up. It fails only on a number token whose literal denotes no
number. -/
def Program.ofTokens (tokens : List Token) : Except Fault Program :=
  let start := ParseState.ofTokens tokens
  match Parse.declarations nestingRoom start.rest.length start with
  | .ok statements s => .ok ⟨statements, s.errors, start.rest.length - s.rest.length, s.nodes⟩
  | .error fault _ => .error fault

/-- The expression that tokens make up. -/
def Standalone.ofTokens (tokens : List Token) : Standalone :=
  let start := ParseState.ofTokens tokens
  match Parse.standalone nestingRoom start with
  | .ok e s => ⟨.ok e, s.errors, start.rest.length - s.rest.length⟩
  | .error fault s => ⟨.error fault, s.errors, start.rest.length - s.rest.length⟩

/-- The program that a source text spells; complaints of the scanner come first. -/
def Program.ofSource (source : String) : Except Fault Program := do
  let scan := Scan.ofSource source
  let program ← Program.ofTokens scan.tokens
  return { program with errors := scan.errors ++ program.errors }

/-- The expression that a source text spells, or the first complaint. -/
def Expr.ofSource (source : String) : Except Fault Expr :=
  match Scan.tokenize source with
  | .ok tokens => (Standalone.ofTokens tokens).result
  | .error d => .error (.diagnostic d)

end LoxTree
