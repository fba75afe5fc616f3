import LoxTree.Tree

/-!
# Expressions and statements

The trees that the parser makes. Each node has a number, given in the order in which the nodes were
made; it tells nodes apart and is no part of what they mean. `Expr.toTree` and `Stmt.toTree` forget
the numbers and give the tree of the full language; `Stmt.numbering` lists the numbers from the root
down.
-/

namespace LoxTree

/-- An expression; `id` is the number of the node. -/
inductive Expr where
  | literal (id : Nat) (value : Value)
  | grouping (id : Nat) (inner : Expr)
  | unary (id : Nat) (operator : Token) (operand : Expr)
  | binary (id : Nat) (left : Expr) (operator : Token) (right : Expr)
  | reference (id : Nat) (name : Token)
  | assign (id : Nat) (name : Token) (value : Expr)
  deriving Repr, Inhabited

/-- A statement; `id` is the number of the node. -/
inductive Stmt where
  | expression (id : Nat) (e : Expr)
  | print (id : Nat) (e : Expr)
  | var (id : Nat) (name : Token) (initializer : Option Expr)
  deriving Repr, Inhabited

namespace Expr

/-- The tree of an expression. -/
def toTree : Expr → Tree
  | literal _ v => .literal v
  | grouping _ e => .grouping e.toTree
  | unary _ op e => .unary (.token op) e.toTree
  | binary _ l op r => .binary l.toTree (.token op) r.toTree
  | reference _ n => .reference (.token n)
  | assign _ n e => .assign (.token n) e.toTree

/-- The number of the node at the root. -/
def id : Expr → Nat
  | literal i _ | grouping i _ | unary i _ _ | binary i _ _ _ | reference i _ | assign i _ _ => i

/-- The class and the number of every node, from the root down. -/
def numbering (e : Expr) : List (String × Nat) :=
  (e.toTree.className, e.id) ::
    match e with
    | literal _ _ | reference _ _ => []
    | grouping _ e | unary _ _ e | assign _ _ e => e.numbering
    | binary _ l _ r => l.numbering ++ r.numbering

end Expr

namespace Stmt

/-- The tree of a statement. -/
def toTree : Stmt → Tree
  | expression _ e => .expressionStmt e.toTree
  | print _ e => .printStmt e.toTree
  | var _ n none => .varDecl (.token n) .missing
  | var _ n (some e) => .varDecl (.token n) e.toTree

/-- The number of the node at the root. -/
def id : Stmt → Nat
  | expression i _ | print i _ | var i _ _ => i

/-- The class and the number of every node, from the root down. -/
def numbering (s : Stmt) : List (String × Nat) :=
  (s.toTree.className, s.id) ::
    match s with
    | expression _ e | print _ e | var _ _ (some e) => e.numbering
    | var _ _ none => []

end Stmt

end LoxTree
