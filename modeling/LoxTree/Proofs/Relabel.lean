import LoxTree.Expr
import LoxTree.Fault

/-!
# Moving tokens to other lines

Where a program stands in a larger text decides the lines of its tokens and the numbers of its
nodes, and nothing else. `Token.mapLine g` moves a token from line `l` to line `g l`; diagnostics
and faults move with their tokens. `Expr.relabel g k` and `Stmt.relabel g k` move the tokens in a
tree and add `k` to the numbers of its nodes.
-/

namespace LoxTree

/-- The token on another line. -/
def Token.mapLine (g : Int → Int) (t : Token) : Token :=
  { t with line := g t.line }

namespace Token

variable (g : Int → Int) (t : Token)

@[simp] theorem kind_mapLine : (t.mapLine g).kind = t.kind :=
  rfl

@[simp] theorem lexeme_mapLine : (t.mapLine g).lexeme = t.lexeme :=
  rfl

@[simp] theorem literal_mapLine : (t.mapLine g).literal = t.literal :=
  rfl

@[simp] theorem line_mapLine : (t.mapLine g).line = g t.line :=
  rfl

@[simp] theorem mapLine_same : t.mapLine (fun l => l) = t :=
  rfl

end Token

/-- The diagnostic with its token and its line moved. -/
def Diagnostic.mapLine (g : Int → Int) : Diagnostic → Diagnostic
  | general c l => general c (g l)
  | lexical c l => lexical c (g l)
  | grammatical t c => grammatical (t.mapLine g) c
  | runtime t c l => runtime (t.map (Token.mapLine g)) c (g l)
  | undefinedName t => undefinedName (t.mapLine g)
  | mistyped t c l => mistyped (t.map (Token.mapLine g)) c (g l)

/-- A diagnostic moves to the line that its line is mapped to. -/
@[simp] theorem Diagnostic.line_mapLine (g : Int → Int) (d : Diagnostic) :
    (d.mapLine g).line = g d.line := by
  cases d <;> rfl

/-- What a diagnostic complains about does not depend on its line. -/
@[simp] theorem Diagnostic.complaint_mapLine (g : Int → Int) (d : Diagnostic) :
    (d.mapLine g).complaint = d.complaint := by
  cases d <;> rfl

@[simp] theorem Diagnostic.mapLine_same (d : Diagnostic) : d.mapLine (fun l => l) = d := by
  cases d with
  | runtime t c l => cases t <;> rfl
  | mistyped t c l => cases t <;> rfl
  | _ => rfl

/-- The fault with its diagnostic moved. -/
def Fault.mapLine (g : Int → Int) : Fault → Fault
  | diagnostic d => diagnostic (d.mapLine g)
  | fault => fault

namespace Expr

/-- The expression with its tokens on other lines and the numbers of its nodes raised. -/
def relabel (g : Int → Int) (k : Nat) : Expr → Expr
  | literal i v => literal (i + k) v
  | grouping i e => grouping (i + k) (e.relabel g k)
  | unary i op e => unary (i + k) (op.mapLine g) (e.relabel g k)
  | binary i l op r => binary (i + k) (l.relabel g k) (op.mapLine g) (r.relabel g k)
  | reference i n => reference (i + k) (n.mapLine g)
  | assign i n e => assign (i + k) (n.mapLine g) (e.relabel g k)

@[simp] theorem relabel_same_zero (e : Expr) : e.relabel (fun l => l) 0 = e := by
  induction e with
  | literal => rfl
  | grouping _ _ ih => simp [relabel, ih]
  | unary _ _ _ ih => simp [relabel, ih]
  | binary _ _ _ _ ih₁ ih₂ => simp [relabel, ih₁, ih₂]
  | reference => rfl
  | assign _ _ _ ih => simp [relabel, ih]

/-- The numbers of the nodes are no part of the tree. -/
@[simp] theorem toTree_relabel_same (k : Nat) (e : Expr) :
    (e.relabel (fun l => l) k).toTree = e.toTree := by
  induction e with
  | literal => rfl
  | grouping _ _ ih => simp [relabel, toTree, ih]
  | unary _ _ _ ih => simp [relabel, toTree, ih]
  | binary _ _ _ _ ih₁ ih₂ => simp [relabel, toTree, ih₁, ih₂]
  | reference => rfl
  | assign _ _ _ ih => simp [relabel, toTree, ih]

end Expr

namespace Stmt

/-- The statement with its tokens on other lines and the numbers of its nodes raised. -/
def relabel (g : Int → Int) (k : Nat) : Stmt → Stmt
  | expression i e => expression (i + k) (e.relabel g k)
  | print i e => print (i + k) (e.relabel g k)
  | var i n e => var (i + k) (n.mapLine g) (e.map (Expr.relabel g k))

@[simp] theorem relabel_same_zero (s : Stmt) : s.relabel (fun l => l) 0 = s := by
  cases s with
  | expression => simp [relabel]
  | print => simp [relabel]
  | var _ _ e => cases e <;> simp [relabel]

@[simp] theorem toTree_relabel_same (k : Nat) (s : Stmt) :
    (s.relabel (fun l => l) k).toTree = s.toTree := by
  cases s with
  | expression => simp [relabel, toTree]
  | print => simp [relabel, toTree]
  | var _ _ e => cases e <;> simp [relabel, toTree]

end Stmt

end LoxTree
