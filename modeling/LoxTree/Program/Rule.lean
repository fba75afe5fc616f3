import LoxTree.Expr
import LoxTree.Value.Numeric

/-!
# Parsing expressions

The grammar has one rule for each level of precedence, from assignment down to primary expressions:

    expression -> assignment
    assignment -> IDENTIFIER "=" assignment | equality
    equality   -> comparison (("!=" | "==") comparison)*
    comparison -> term ((">" | ">=" | "<" | "<=") term)*
    term       -> factor (("-" | "+") factor)*
    factor     -> unary (("/" | "*") unary)*
    unary      -> ("!" | "-") unary | primary
    primary    -> NUMBER | STRING | "true" | "false" | "nil"
                | "(" expression ")" | IDENTIFIER

`Rule.parse` follows it by recursive descent. The parser reads the tokens before the end marker and
never looks behind it. The state holds the tokens that are left, the number of nodes made so far and
the complaints recorded so far, and it outlives a failure, so that the parser can go on from the
place where it failed.
-/

namespace LoxTree

/-- The state of the parser. -/
structure ParseState where
  /-- The tokens that are left before the end marker. -/
  rest : List Token
  /-- The end marker, which is never consumed. -/
  ending : Token
  /-- The number of nodes made so far. -/
  nodes : Nat := 0
  /-- The complaints so far, in the order in which they were recorded. -/
  errors : List Diagnostic := []

/-- A step of the parser. -/
abbrev Parse := EStateM Fault ParseState

namespace Parse

/-- The next token; the end marker when no other is left. -/
def peek : Parse Token :=
  return (← get).rest.headD (← get).ending

/-- Consumes the next token if it is of one of the given kinds. -/
def accept (kinds : List Kind) : Parse (Option Token) := do
  let s ← get
  match s.rest with
  | t :: rest =>
    if t.kind ∈ kinds then
      set { s with rest }
      return some t
    else return none
  | [] => return none

/-- Records a complaint and goes on. -/
def record (d : Diagnostic) : Parse Unit :=
  modify fun s => { s with errors := s.errors ++ [d] }

/-- Fails with a complaint about the next token. -/
def complain {α : Type} (complaint : Complaint) : Parse α := do
  throw (.diagnostic (.grammatical (← peek) complaint))

/-- Consumes a token of the given kind, or fails with the complaint. -/
def expect (kind : Kind) (complaint : Complaint) : Parse Token := do
  match ← accept [kind] with
  | some t => return t
  | none => complain complaint

/-- The number of a new node. -/
def newNode : Parse Nat := do
  modify fun s => { s with nodes := s.nodes + 1 }
  return (← get).nodes

/-- Goes on with operators and operands while there are operators, folding to the left. Every round
consumes a token, so the number of tokens left bounds the rounds. -/
def foldOperators (operators : List Kind) (operand : Parse Expr) : Nat → Expr → Parse Expr
  | 0, left => return left
  | rounds + 1, left => do
    match ← accept operators with
    | none => return left
    | some operator =>
      let right ← operand
      let node := Expr.binary (← newNode) left operator right
      foldOperators operators operand rounds node

/-- Operands with operators between them, grouped to the left. -/
def leftAssoc (operators : List Kind) (operand : Parse Expr) : Parse Expr := do
  let left ← operand
  foldOperators operators operand (← get).rest.length left

/-- A literal node. -/
def literal (value : Value) : Parse Expr :=
  return .literal (← newNode) value

/-- The value of a number token. -/
def numberValue (t : Token) : Except Fault Value :=
  match t.literal with
  | some text => Value.ofNumeral text
  | none => .error .wrongType

/-- The value of a string token. -/
def stringValue (t : Token) : Value :=
  match t.literal with
  | some s => .string s
  | none => .absent

end Parse

/-- The rules of the grammar of expressions. -/
inductive Rule where
  | expression | assignment | equality | comparison | term | factor | unary | primary
  deriving DecidableEq, Repr

open Parse in
/-- Parses by a rule, within the given room. A rule takes one unit of room, a rule with operators
between its operands two. -/
def Rule.parse : Nat → Rule → Parse Expr
  | room + 1, .expression => parse room .assignment
  | room + 1, .assignment => do
    let target ← parse room .equality
    match ← accept [.equal] with
    | none => return target
    | some equals =>
      let value ← parse room .assignment
      match target with
      | .reference _ name => return .assign (← newNode) name value
      | _ =>
        record (.grammatical equals .invalidTarget)
        return value
  | room + 2, .equality => leftAssoc [.bangEqual, .equalEqual] (parse room .comparison)
  | room + 2, .comparison =>
    leftAssoc [.greater, .greaterEqual, .less, .lessEqual] (parse room .term)
  | room + 2, .term => leftAssoc [.minus, .plus] (parse room .factor)
  | room + 2, .factor => leftAssoc [.slash, .star] (parse room .unary)
  | room + 1, .unary => do
    match ← accept [.bang, .minus] with
    | some operator =>
      let operand ← parse room .unary
      return .unary (← newNode) operator operand
    | none => parse room .primary
  | room + 1, .primary => do
    match ← accept [.kwFalse, .kwTrue, .kwNil, .number, .string, .identifier, .leftParen] with
    | none => complain .expectExpression
    | some t =>
      match t.kind with
      | .kwFalse => literal (.boolean false)
      | .kwTrue => literal (.boolean true)
      | .kwNil => literal .nil
      | .number => literal (← ofExcept (numberValue t))
      | .string => literal (stringValue t)
      | .identifier => return .reference (← newNode) t
      | _ =>
        let inner ← parse room .expression
        let _ ← expect .rightParen .expectClosingParen
        return .grouping (← newNode) inner
  | _, _ => throw .tooDeep

end LoxTree
