import LoxTree.Value
import LoxTree.Token

/-!
# Trees

The trees of the full language: every node class with its fields in their order, and tokens, lists
and nothing in any field. Trees that are read from files are not checked, so a field may hold any
tree; `LoxTree.Expr` and `LoxTree.Stmt` are the trees that the parser makes. The type of the tokens
is left open, since a file may hold tokens that no source text has; where it is not given, it is
`Token`.

`Tree.parts` lists what a tree is made of in the order of the fields, and `Tree.tokens` the tokens
in it. `Tree.map` replaces the tokens by others. `Tree.firstLine` finds the line of the first token
without recursion on the tree, by a list of the trees that are still to be looked at.
-/

namespace LoxTree

/-- A tree of the full language, with tokens of the given type. -/
inductive Tree (τ : Type := Token) where
  /-- Nothing. -/
  | missing
  | list (items : List (Tree τ))
  | token (t : τ)
  -- expressions
  | literal (value : Value)
  | grouping (expression : Tree τ)
  | unary (operator right : Tree τ)
  | binary (left operator right : Tree τ)
  | logical (left operator right : Tree τ)
  | reference (name : Tree τ)
  | assign (name value : Tree τ)
  | call (callee paren arguments : Tree τ)
  | getProperty (object name : Tree τ)
  | setProperty (object name value : Tree τ)
  | this (keyword : Tree τ)
  | super (keyword method : Tree τ)
  -- statements
  | expressionStmt (expression : Tree τ)
  | printStmt (expression : Tree τ)
  | varDecl (name initializer : Tree τ)
  | block (statements : Tree τ)
  | ifStmt (condition thenBranch elseBranch : Tree τ)
  | whileStmt (condition body : Tree τ)
  | functionDecl (name params body : Tree τ)
  | returnStmt (keyword value : Tree τ)
  | classDecl (name superclass methods : Tree τ)
  deriving Repr, Inhabited

namespace Tree

variable {τ σ : Type}

/-- The class of a tree. -/
def className : Tree τ → String
  | missing => "NoneType"
  | list _ => "list"
  | token _ => "Token"
  | literal _ => "Literal"
  | grouping _ => "Grouping"
  | unary _ _ => "Unary"
  | binary _ _ _ => "Binary"
  | logical _ _ _ => "Logical"
  | reference _ => "Variable"
  | assign _ _ => "Assign"
  | call _ _ _ => "Call"
  | getProperty _ _ => "Get"
  | setProperty _ _ _ => "Set"
  | this _ => "This"
  | super _ _ => "Super"
  | expressionStmt _ => "Expression"
  | printStmt _ => "Print"
  | varDecl _ _ => "Var"
  | block _ => "Block"
  | ifStmt _ _ _ => "If"
  | whileStmt _ _ => "While"
  | functionDecl _ _ _ => "Function"
  | returnStmt _ _ => "Return"
  | classDecl _ _ _ => "Class"

/-- The fields of a node that hold trees, with their names, in their order. -/
def fields : Tree τ → List (String × Tree τ)
  | missing | list _ | token _ | literal _ => []
  | grouping e => [("expression", e)]
  | unary op r => [("operator", op), ("right", r)]
  | binary l op r => [("left", l), ("operator", op), ("right", r)]
  | logical l op r => [("left", l), ("operator", op), ("right", r)]
  | reference n => [("name", n)]
  | assign n v => [("name", n), ("value", v)]
  | call c p as => [("callee", c), ("paren", p), ("arguments", as)]
  | getProperty o n => [("object", o), ("name", n)]
  | setProperty o n v => [("object", o), ("name", n), ("value", v)]
  | this k => [("keyword", k)]
  | super k m => [("keyword", k), ("method", m)]
  | expressionStmt e => [("expression", e)]
  | printStmt e => [("expression", e)]
  | varDecl n i => [("name", n), ("initializer", i)]
  | block ss => [("statements", ss)]
  | ifStmt c t e => [("condition", c), ("then_branch", t), ("else_branch", e)]
  | whileStmt c b => [("condition", c), ("body", b)]
  | functionDecl n ps b => [("name", n), ("params", ps), ("body", b)]
  | returnStmt k v => [("keyword", k), ("value", v)]
  | classDecl n s ms => [("name", n), ("superclass", s), ("methods", ms)]

/-- What a tree is made of: the items of a list, the fields of a node. -/
def parts : Tree τ → List (Tree τ)
  | list items => items
  | t => t.fields.map Prod.snd

/-- The size of trees together. -/
noncomputable def totalSize [SizeOf τ] : List (Tree τ) → Nat
  | [] => 0
  | t :: rest => sizeOf t + totalSize rest

/-- The sizes of two lists of trees add up. -/
theorem totalSize_append [SizeOf τ] (trees others : List (Tree τ)) :
    totalSize (trees ++ others) = totalSize trees + totalSize others := by
  induction trees with
  | nil => simp [totalSize]
  | cons t rest ih =>
    rw [List.cons_append, totalSize, totalSize, ih]
    omega

/-- The items of a list are smaller together than the list. -/
theorem totalSize_le [SizeOf τ] (items : List (Tree τ)) : totalSize items ≤ sizeOf items := by
  induction items with
  | nil => simp [totalSize]
  | cons t rest ih =>
    rw [totalSize, List.cons.sizeOf_spec]
    omega

/-- The parts of a tree are smaller together than the tree. -/
theorem totalSize_parts_lt [SizeOf τ] (t : Tree τ) : totalSize t.parts < sizeOf t := by
  cases t with
  | list items =>
    have := totalSize_le items
    rw [parts, list.sizeOf_spec]
    omega
  | _ => simp [parts, fields, totalSize] <;> omega

/-- A part is smaller than the tree. -/
theorem sizeOf_lt_of_mem_parts [SizeOf τ] {t part : Tree τ} (h : part ∈ t.parts) :
    sizeOf part < sizeOf t := by
  have hlt := totalSize_parts_lt t
  obtain ⟨before, after, heq⟩ := List.append_of_mem h
  rw [heq, totalSize_append, totalSize] at hlt
  omega

/-- What holds of a tree whenever it holds of its parts holds of every tree. -/
theorem parts_induction {motive : Tree τ → Prop}
    (parts : ∀ t, (∀ part ∈ t.parts, motive part) → motive t) (t : Tree τ) : motive t :=
  parts t fun part _ => parts_induction parts part
termination_by sizeOf t
decreasing_by exact sizeOf_lt_of_mem_parts ‹_›

/-! ### Tokens of another type -/

/-- The tree with every token in it replaced. -/
def map (f : τ → σ) : Tree τ → Tree σ
  | missing => missing
  | list items => list (items.map (map f))
  | token t => token (f t)
  | literal v => literal v
  | grouping e => grouping (e.map f)
  | unary op r => unary (op.map f) (r.map f)
  | binary l op r => binary (l.map f) (op.map f) (r.map f)
  | logical l op r => logical (l.map f) (op.map f) (r.map f)
  | reference n => reference (n.map f)
  | assign n v => assign (n.map f) (v.map f)
  | call c p as => call (c.map f) (p.map f) (as.map f)
  | getProperty o n => getProperty (o.map f) (n.map f)
  | setProperty o n v => setProperty (o.map f) (n.map f) (v.map f)
  | this k => this (k.map f)
  | super k m => super (k.map f) (m.map f)
  | expressionStmt e => expressionStmt (e.map f)
  | printStmt e => printStmt (e.map f)
  | varDecl n i => varDecl (n.map f) (i.map f)
  | block ss => block (ss.map f)
  | ifStmt c t e => ifStmt (c.map f) (t.map f) (e.map f)
  | whileStmt c b => whileStmt (c.map f) (b.map f)
  | functionDecl n ps b => functionDecl (n.map f) (ps.map f) (b.map f)
  | returnStmt k v => returnStmt (k.map f) (v.map f)
  | classDecl n s ms => classDecl (n.map f) (s.map f) (ms.map f)

/-- The parts of a tree with its tokens replaced are its parts with theirs replaced. -/
theorem parts_map (f : τ → σ) (t : Tree τ) : (t.map f).parts = t.parts.map (map f) := by
  cases t <;> simp [map, parts, fields]

theorem map_ne_token (f : τ → σ) {t : Tree τ} (h : ∀ x, t ≠ token x) (y : σ) :
    t.map f ≠ token y := by
  cases t with
  | token x => exact absurd rfl (h x)
  | _ => simp [map]

/-- Replacing the tokens is undone by replacing them back. -/
theorem map_map_of_leftInverse {f : τ → σ} {g : σ → τ} (h : ∀ x, g (f x) = x) (t : Tree τ) :
    (t.map f).map g = t := by
  fun_induction map f t with
  | case2 items ih =>
    rw [map, List.map_map]
    exact congrArg list ((List.map_congr_left ih).trans (List.map_id _))
  | case3 t => rw [map, h]
  | _ => simp_all only [map]

/-! ### Tokens in a tree -/

/-- The tokens in a tree, in the order of the fields. -/
def tokens (t : Tree τ) : List τ :=
  match t with
  | token tok => [tok]
  | t => t.parts.attach.flatMap fun part => tokens part.1
termination_by sizeOf t
decreasing_by exact sizeOf_lt_of_mem_parts part.2

theorem tokens_token (tok : τ) : (token tok).tokens = [tok] :=
  tokens.eq_1 tok

/-- The tokens in a tree that is none are those in its parts. -/
theorem tokens_eq_flatMap {t : Tree τ} (h : ∀ tok, t ≠ token tok) :
    t.tokens = t.parts.flatMap tokens := by
  rw [tokens.eq_2 t h, List.flatMap_subtype fun _ _ => rfl, List.unattach_attach]

theorem tokens_map (f : τ → σ) (t : Tree τ) : (t.map f).tokens = t.tokens.map f := by
  induction t using parts_induction with
  | parts t ih =>
    by_cases ht : ∃ tok, t = token tok
    · obtain ⟨tok, rfl⟩ := ht
      rw [map, tokens_token, tokens_token, List.map_singleton]
    · have hne : ∀ tok, t ≠ token tok := fun tok h => ht ⟨tok, h⟩
      rw [tokens_eq_flatMap (map_ne_token f hne), tokens_eq_flatMap hne, parts_map,
        List.flatMap_map, List.map_flatMap, List.flatMap_def, List.flatMap_def,
        List.map_congr_left ih]

/-- The line of the first token in a list of trees, zero if there is none. Looking at a tree that is
no token puts its parts in front of the trees that are still to be looked at. -/
def firstLineOf : List Tree → Int
  | [] => 0
  | token tok :: _ => tok.line
  | t :: rest => firstLineOf (t.parts ++ rest)
termination_by trees => totalSize trees
decreasing_by
  have := totalSize_parts_lt t
  rw [totalSize_append, totalSize]
  omega

/-- The line of the first token in a tree, zero if there is none. -/
def firstLine (t : Tree) : Int :=
  firstLineOf [t]

end Tree

end LoxTree
