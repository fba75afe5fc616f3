import LoxTree.Proofs.Parsing.Steps

/-!
# The grammar

The grammar of the language as a relation between token lists and trees, independent of how the
parser works. A derivation says which alternative of a rule is taken at each place and with which
tokens, and gives the tree: the operands of a level of operators are folded to the left, prefix
operators and assignments nest to the right.

* `Grammar.Derives r tokens tree`: the tokens derive from rule `r`, with that tree.
* `Grammar.Declaration tokens tree` and `Grammar.Program tokens trees`: the same for a declaration
  and for a whole program.
* `Derives.starts`: an expression starts with a token that no statement keyword is.
* `Derives.kind_notMem_boundaries`: no phrase goes over the end of a statement or the start of one.
* `Derives.eq_singleton_of_reference`: the only phrase whose tree is a variable is the identifier
  alone, so a parser may look at the tree to find out whether it has read an assignable name.
* `Derives.exists_built`: a derivation ends with the step that makes the node at the root (`Built`),
  and only passes it on to the rule.
-/

namespace LoxTree.Grammar

open Parse

/-- An operator and the operand behind it: the operand's tokens and its tree. -/
structure Operation where
  operator : Token
  operand : List Token
  tree : Tree

namespace Operation

/-- The tokens of an operation. -/
def tokens (o : Operation) : List Token :=
  o.operator :: o.operand

/-- The tree of an operation on a left operand. -/
def applyTo (left : Tree) (o : Operation) : Tree :=
  .binary left (.token o.operator) o.tree

end Operation

/-- Tokens that derive from a rule, with their tree. -/
inductive Derives : Rule → List Token → Tree → Prop
  | expression {tokens : List Token} {tree : Tree} :
    Derives .assignment tokens tree → Derives .expression tokens tree
  | assign {name equals : Token} {tokens : List Token} {value : Tree} :
    name.kind = .identifier → equals.kind = .equal → Derives .assignment tokens value →
    Derives .assignment (name :: equals :: tokens) (.assign (.token name) value)
  | equality {tokens : List Token} {tree : Tree} :
    Derives .equality tokens tree → Derives .assignment tokens tree
  /-- A first operand and any number of operations on it. -/
  | level {r q : Rule} {operators : List Kind} {first : List Token} {left : Tree}
    (operations : List Operation) :
    Rule.Level r operators q → Derives q first left →
    (∀ o ∈ operations, o.operator.kind ∈ operators) →
    (∀ o ∈ operations, Derives q o.operand o.tree) →
    Derives r (first ++ operations.flatMap Operation.tokens)
      (operations.foldl Operation.applyTo left)
  | unary {operator : Token} {tokens : List Token} {tree : Tree} :
    operator.kind ∈ [.bang, .minus] → Derives .unary tokens tree →
    Derives .unary (operator :: tokens) (.unary (.token operator) tree)
  | primary {tokens : List Token} {tree : Tree} :
    Derives .primary tokens tree → Derives .unary tokens tree
  | literal {t : Token} {v : Value} : LiteralToken t v → Derives .primary [t] (.literal v)
  | reference {t : Token} : t.kind = .identifier → Derives .primary [t] (.reference (.token t))
  | grouping {opening closing : Token} {tokens : List Token} {tree : Tree} :
    opening.kind = .leftParen → Derives .expression tokens tree → closing.kind = .rightParen →
    Derives .primary (opening :: tokens ++ [closing]) (.grouping tree)

/-- Tokens that make up a declaration or a statement, with its tree. -/
inductive Declaration : List Token → Tree → Prop
  | var {kw name semi : Token} :
    kw.kind = .kwVar → name.kind = .identifier → semi.kind = .semicolon →
    Declaration [kw, name, semi] (.varDecl (.token name) .missing)
  | varInit {kw name equals semi : Token} {tokens : List Token} {tree : Tree} :
    kw.kind = .kwVar → name.kind = .identifier → equals.kind = .equal →
    Derives .expression tokens tree → semi.kind = .semicolon →
    Declaration (kw :: name :: equals :: tokens ++ [semi]) (.varDecl (.token name) tree)
  | print {kw semi : Token} {tokens : List Token} {tree : Tree} :
    kw.kind = .kwPrint → Derives .expression tokens tree → semi.kind = .semicolon →
    Declaration (kw :: tokens ++ [semi]) (.printStmt tree)
  | expression {semi : Token} {tokens : List Token} {tree : Tree} :
    Derives .expression tokens tree → semi.kind = .semicolon →
    Declaration (tokens ++ [semi]) (.expressionStmt tree)

/-- Tokens that make up a program, with the trees of its declarations. -/
inductive Program : List Token → List Tree → Prop
  | nil : Program [] []
  | cons {tokens rest : List Token} {tree : Tree} {trees : List Tree} :
    Declaration tokens tree → Program rest trees → Program (tokens ++ rest) (tree :: trees)

/-! ### First tokens -/

/-- The kinds of tokens that an expression starts with. -/
def expressionStarts : List Kind :=
  .bang :: .minus :: primaryStarts

theorem LiteralToken.starts {t : Token} {v : Value} (h : LiteralToken t v) :
    t.kind ∈ primaryStarts := by
  cases h with
  | isFalse hk | isTrue hk | isNil hk | number hk _ | string hk =>
    rw [hk]
    decide

/-- A primary expression starts with one of the tokens for it. -/
theorem Derives.starts_primary {tokens : List Token} {tree : Tree}
    (h : Derives .primary tokens tree) :
    ∃ t rest, tokens = t :: rest ∧ t.kind ∈ primaryStarts := by
  cases h with
  | level operations hl => cases hl
  | literal hv => exact ⟨_, _, rfl, LiteralToken.starts hv⟩
  | reference hk => exact ⟨_, _, rfl, by rw [hk]; decide⟩
  | grouping hk => exact ⟨_, _, rfl, by rw [hk]; decide⟩

/-- An expression starts with one of the tokens for it. -/
theorem Derives.starts {r : Rule} {tokens : List Token} {tree : Tree} (h : Derives r tokens tree) :
    ∃ t rest, tokens = t :: rest ∧ t.kind ∈ expressionStarts := by
  induction h with
  | expression _ ih => exact ih
  | assign hid _ _ _ => exact ⟨_, _, rfl, by rw [hid]; decide⟩
  | equality _ ih => exact ih
  | level operations _ _ _ _ ih _ =>
    obtain ⟨t, rest, rfl, hk⟩ := ih
    exact ⟨t, _, rfl, hk⟩
  | unary hk _ _ =>
    have hmem : ∀ k ∈ [Kind.bang, .minus], k ∈ expressionStarts := by decide
    exact ⟨_, _, rfl, hmem _ hk⟩
  | primary _ ih => exact ih
  | literal hv =>
    exact ⟨_, _, rfl, List.mem_cons_of_mem _ (List.mem_cons_of_mem _ (LiteralToken.starts hv))⟩
  | reference hk => exact ⟨_, _, rfl, by rw [hk]; decide⟩
  | grouping hk _ _ _ => exact ⟨_, _, rfl, by rw [hk]; decide⟩

/-! ### Tokens between phrases -/

/-- The kinds of tokens that stand between phrases: the end marker, the semicolon and the words that
start a statement. -/
def boundaries : List Kind :=
  .eof :: .semicolon :: Kind.statementStarts

/-- No phrase goes over a boundary. -/
theorem Derives.kind_notMem_boundaries {r : Rule} {tokens : List Token} {tree : Tree}
    (h : Derives r tokens tree) : ∀ t ∈ tokens, t.kind ∉ boundaries := by
  induction h with
  | expression _ ih => exact ih
  | assign hid heq _ ih =>
    refine List.forall_mem_cons.2 ⟨?_, List.forall_mem_cons.2 ⟨?_, ih⟩⟩
    · rw [hid]
      decide
    · rw [heq]
      decide
  | equality _ ih => exact ih
  | @level _ _ operators _ _ operations hl _ hops _ ih ihs =>
    have hnot : ∀ k ∈ operators, k ∉ boundaries := by cases hl <;> decide
    intro t ht
    rcases List.mem_append.1 ht with ht | ht
    · exact ih t ht
    · obtain ⟨o, ho, ht⟩ := List.mem_flatMap.1 ht
      rcases List.mem_cons.1 ht with rfl | ht
      · exact hnot _ (hops o ho)
      · exact ihs o ho t ht
  | unary hk _ ih =>
    have hnot : ∀ k ∈ [Kind.bang, .minus], k ∉ boundaries := by decide
    exact List.forall_mem_cons.2 ⟨hnot _ hk, ih⟩
  | primary _ ih => exact ih
  | literal hv =>
    have hnot : ∀ k ∈ primaryStarts, k ∉ boundaries := by decide
    exact List.forall_mem_singleton.2 (hnot _ (LiteralToken.starts hv))
  | reference hk =>
    refine List.forall_mem_singleton.2 ?_
    rw [hk]
    decide
  | grouping ho _ hc ih =>
    refine List.forall_mem_append.2 ⟨List.forall_mem_cons.2 ⟨?_, ih⟩, ?_⟩
    · rw [ho]
      decide
    · refine List.forall_mem_singleton.2 ?_
      rw [hc]
      decide

/-! ### Variables -/

/-- Operations on a left operand make a binary tree, unless there are none. -/
theorem foldl_applyTo_cases (operations : List Operation) (left : Tree) :
    operations = [] ∨
      ∃ l op r, operations.foldl Operation.applyTo left = .binary l (.token op) r := by
  rcases List.eq_nil_or_concat operations with rfl | ⟨init, o, rfl⟩
  · exact .inl rfl
  · rw [List.concat_eq_append, List.foldl_append]
    exact .inr ⟨_, _, _, rfl⟩

/-- The only tokens with the tree of a variable are its name alone. -/
theorem Derives.eq_singleton_of_reference {r : Rule} {tokens : List Token} {name : Token}
    (h : Derives r tokens (.reference (.token name))) :
    tokens = [name] ∧ name.kind = .identifier := by
  -- every other rule makes a tree of another shape
  generalize htree : Tree.reference (.token name) = tree at h
  induction h with
  | expression _ ih => exact ih htree
  | equality _ ih => exact ih htree
  | level operations _ _ _ _ ih _ =>
    rcases foldl_applyTo_cases operations _ with rfl | ⟨l, op, r, heq⟩
    · obtain ⟨hname, hk⟩ := ih htree
      rw [List.flatMap_nil, List.append_nil]
      exact ⟨hname, hk⟩
    · rw [heq] at htree
      cases htree
  | primary _ ih => exact ih htree
  | reference hk =>
    cases htree
    exact ⟨rfl, hk⟩
  | assign | unary | literal | grouping => cases htree

/-! ### Last tokens -/

/-- A declaration ends with a semicolon. -/
theorem Declaration.getLast? {tokens : List Token} {tree : Tree} (h : Declaration tokens tree) :
    ∃ semi, tokens.getLast? = some semi ∧ semi.kind = .semicolon := by
  cases h with
  | var _ _ hk => exact ⟨_, rfl, hk⟩
  | varInit _ _ _ _ hk => exact ⟨_, List.getLast?_concat, hk⟩
  | print _ _ hk => exact ⟨_, List.getLast?_concat, hk⟩
  | expression _ hk => exact ⟨_, List.getLast?_concat, hk⟩

/-- A program that is not empty ends with a semicolon. -/
theorem Program.semicolon_of_getLast? {tokens : List Token} {trees : List Tree}
    (h : Program tokens trees) : ∀ t ∈ tokens.getLast?, t.kind = .semicolon := by
  induction h with
  | nil =>
    intro t ht
    cases ht
  | @cons tokens rest tree trees hd _ ih =>
    intro t ht
    -- the last token of the last declaration, which is this one if nothing follows
    rw [List.getLast?_append] at ht
    cases hrest : rest.getLast? with
    | none =>
      obtain ⟨semi, hsemi, hk⟩ := hd.getLast?
      rw [hrest, hsemi] at ht
      cases ht
      exact hk
    | some last =>
      rw [hrest] at ht
      cases ht
      exact ih t hrest

/-! ### Last steps -/

/-- Every phrase of rule `q` is one of rule `r`. -/
def Within (q r : Rule) : Prop :=
  ∀ tokens tree, Derives q tokens tree → Derives r tokens tree

namespace Within

theorem refl (r : Rule) : Within r r :=
  fun _ _ => id

theorem trans {p q r : Rule} (h : Within p q) (h' : Within q r) : Within p r :=
  fun tokens tree hd => h' tokens tree (h tokens tree hd)

/-- An operand alone is a phrase of its level. -/
theorem of_level {r q : Rule} {operators : List Kind} (h : Rule.Level r operators q) :
    Within q r := by
  intro tokens tree hd
  have hlevel := Derives.level [] h hd (by simp) (by simp)
  rwa [List.flatMap_nil, List.append_nil] at hlevel

/-- A primary expression is a phrase of every rule, and a phrase of any rule is an expression. -/
theorem bounds (r : Rule) : Within .primary r ∧ Within r .expression := by
  have hunary : Within .primary .unary := fun _ _ => .primary
  have hfactor := of_level .factor
  have hterm := of_level .term
  have hcomparison := of_level .comparison
  have hequality := of_level .equality
  have hassignment : Within .equality .assignment := fun _ _ => .equality
  have hexpression : Within .assignment .expression := fun _ _ => .expression
  -- upwards from a primary expression, and downwards from an expression
  have up₁ := hunary.trans hfactor
  have up₂ := up₁.trans hterm
  have up₃ := up₂.trans hcomparison
  have up₄ := up₃.trans hequality
  have up₅ := up₄.trans hassignment
  have down₁ := hassignment.trans hexpression
  have down₂ := hequality.trans down₁
  have down₃ := hcomparison.trans down₂
  have down₄ := hterm.trans down₃
  have down₅ := hfactor.trans down₄
  cases r with
  | expression => exact ⟨up₅.trans hexpression, .refl _⟩
  | assignment => exact ⟨up₅, hexpression⟩
  | equality => exact ⟨up₄, down₁⟩
  | comparison => exact ⟨up₃, down₂⟩
  | term => exact ⟨up₂, down₃⟩
  | factor => exact ⟨up₁, down₄⟩
  | unary => exact ⟨hunary, down₅⟩
  | primary => exact ⟨.refl _, hunary.trans down₅⟩

end Within

/-- The steps of a derivation that make a node, each with the rule that it is a step of. The last
operation of a level makes its node; the operations before it belong to its left operand. -/
inductive Built : Rule → List Token → Tree → Prop
  | assign {name equals : Token} {tokens : List Token} {value : Tree} :
    name.kind = .identifier → equals.kind = .equal → Derives .assignment tokens value →
    Built .assignment (name :: equals :: tokens) (.assign (.token name) value)
  | binary {r q : Rule} {operators : List Kind} {before after : List Token} {operator : Token}
    {left right : Tree} : Rule.Level r operators q → Derives r before left →
    operator.kind ∈ operators → Derives q after right →
    Built r (before ++ operator :: after) (.binary left (.token operator) right)
  | unary {operator : Token} {tokens : List Token} {tree : Tree} :
    operator.kind ∈ [.bang, .minus] → Derives .unary tokens tree →
    Built .unary (operator :: tokens) (.unary (.token operator) tree)
  | literal {t : Token} {v : Value} : LiteralToken t v → Built .primary [t] (.literal v)
  | reference {t : Token} : t.kind = .identifier → Built .primary [t] (.reference (.token t))
  | grouping {opening closing : Token} {tokens : List Token} {tree : Tree} :
    opening.kind = .leftParen → Derives .expression tokens tree → closing.kind = .rightParen →
    Built .primary (opening :: tokens ++ [closing]) (.grouping tree)

/-- One more operation on a phrase of a level. -/
theorem Derives.operation {r q : Rule} {operators : List Kind} {before after : List Token}
    {operator : Token} {left right : Tree} (hl : Rule.Level r operators q)
    (h : Derives r before left) (hk : operator.kind ∈ operators) (hr : Derives q after right) :
    Derives r (before ++ operator :: after) (.binary left (.token operator) right) := by
  cases h with
  | @level _ q' operators' first left' operations hl' hfirst hops hds =>
    obtain ⟨rfl, rfl⟩ : operators' = operators ∧ q' = q := by
      cases hl <;> cases hl' <;> exact ⟨rfl, rfl⟩
    have hlevel := Derives.level (operations ++ [⟨operator, after, right⟩]) hl hfirst
      (fun o ho => (List.mem_append.1 ho).elim (hops o) fun ho => List.mem_singleton.1 ho ▸ hk)
      (fun o ho => (List.mem_append.1 ho).elim (hds o) fun ho => List.mem_singleton.1 ho ▸ hr)
    rw [List.flatMap_append, List.foldl_append, ← List.append_assoc] at hlevel
    simpa [Operation.tokens, Operation.applyTo] using hlevel
  | _ => cases hl

theorem Built.derives {r : Rule} {tokens : List Token} {tree : Tree} (h : Built r tokens tree) :
    Derives r tokens tree := by
  cases h with
  | assign hid heq hd => exact .assign hid heq hd
  | binary hl hleft hk hright => exact .operation hl hleft hk hright
  | unary hk hd => exact .unary hk hd
  | literal hv => exact .literal hv
  | reference hk => exact .reference hk
  | grouping ho hd hc => exact .grouping ho hd hc

/-- A derivation ends with a step that makes the node at the root, and passes it on. -/
theorem Derives.exists_built {r : Rule} {tokens : List Token} {tree : Tree}
    (h : Derives r tokens tree) : ∃ q, Within q r ∧ Built q tokens tree := by
  induction h with
  | expression _ ih =>
    obtain ⟨q, hq, hb⟩ := ih
    exact ⟨q, hq.trans fun _ _ => .expression, hb⟩
  | assign hid heq hd _ => exact ⟨_, .refl _, .assign hid heq hd⟩
  | equality _ ih =>
    obtain ⟨q, hq, hb⟩ := ih
    exact ⟨q, hq.trans fun _ _ => .equality, hb⟩
  | level operations hl hd hops hds ih _ =>
    rcases List.eq_nil_or_concat operations with rfl | ⟨init, o, rfl⟩
    · obtain ⟨q, hq, hb⟩ := ih
      rw [List.flatMap_nil, List.append_nil]
      exact ⟨q, hq.trans (.of_level hl), hb⟩
    · -- the operations but the last make the left operand
      rw [List.concat_eq_append] at hops hds ⊢
      have hleft := Derives.level init hl hd (fun o ho => hops o (List.mem_append_left _ ho))
        (fun o ho => hds o (List.mem_append_left _ ho))
      have hlast : o ∈ init ++ [o] := List.mem_append_right _ List.mem_cons_self
      have hb := Built.binary hl hleft (hops o hlast) (hds o hlast)
      refine ⟨_, .refl _, ?_⟩
      rw [List.flatMap_append, List.foldl_append, ← List.append_assoc]
      simpa [Operation.tokens, Operation.applyTo] using hb
  | unary hk hd _ => exact ⟨_, .refl _, .unary hk hd⟩
  | primary _ ih =>
    obtain ⟨q, hq, hb⟩ := ih
    exact ⟨q, hq.trans fun _ _ => .primary, hb⟩
  | literal hv => exact ⟨_, .refl _, .literal hv⟩
  | reference hk => exact ⟨_, .refl _, .reference hk⟩
  | grouping ho hd hc _ => exact ⟨_, .refl _, .grouping ho hd hc⟩

end LoxTree.Grammar
