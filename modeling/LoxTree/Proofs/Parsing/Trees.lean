import LoxTree.Proofs.Parsing.Statements
import LoxTree.Proofs.Scanning.Tokens

/-!
# The trees that the parser makes

The trees of the full language have more shapes than the parser makes of the tokens of a source
text. `Expr.Made` says once what the parser can make of tokens within a room: tokens of the right
kinds in the places of operators and names, and no more nesting than there was room for. What holds
of all parsed trees is proved from it.

* `made_of_parse`: every rule makes such expressions, whether or not there are complaints.
* `Tree.IsExpression` and `Tree.IsStatement`: the shapes of trees that are made of tokens of the
  scanner, with values of the language as literals.
* `isStatement_of_ofSource`: every statement of the program that a source text spells has such a
  shape.
-/

namespace LoxTree

open Step Parse

/-- The operators between two operands. -/
def infixKinds : List Kind :=
  [.bangEqual, .equalEqual, .greater, .greaterEqual, .less, .lessEqual, .minus, .plus, .slash,
    .star]

/-- The expressions that can be made of tokens within a room. -/
inductive Expr.Made (tokens : List Token) : Nat → Expr → Prop
  | literal {room n : Nat} {t : Token} {v : Value} : t ∈ tokens → LiteralToken t v →
    Made tokens (room + 1) (.literal n v)
  | reference {room n : Nat} {name : Token} : name ∈ tokens → name.kind = .identifier →
    Made tokens (room + 1) (.reference n name)
  | grouping {room n : Nat} {e : Expr} : Made tokens room e → Made tokens (room + 1) (.grouping n e)
  | unary {room n : Nat} {operator : Token} {e : Expr} : operator ∈ tokens →
    operator.kind ∈ [Kind.bang, .minus] → Made tokens room e →
    Made tokens (room + 1) (.unary n operator e)
  -- operations in a row nest to the left in a loop, which takes no room
  | binary {room n : Nat} {operator : Token} {l r : Expr} : operator ∈ tokens →
    operator.kind ∈ infixKinds → Made tokens room l → Made tokens room r →
    Made tokens room (.binary n l operator r)
  | assign {room n : Nat} {name : Token} {e : Expr} : name ∈ tokens → name.kind = .identifier →
    Made tokens room e → Made tokens (room + 1) (.assign n name e)
  | more {room : Nat} {e : Expr} : Made tokens room e → Made tokens (room + 1) e

namespace Expr.Made

theorem mono {tokens tokens' : List Token} {room : Nat} {e : Expr} (h : Made tokens' room e)
    (hsub : tokens' ⊆ tokens) : Made tokens room e := by
  induction h with
  | literal ht hv => exact .literal (hsub ht) hv
  | reference ht hk => exact .reference (hsub ht) hk
  | grouping _ ih => exact .grouping ih
  | unary ht hk _ ih => exact .unary (hsub ht) hk ih
  | binary ht hk _ _ ihl ihr => exact .binary (hsub ht) hk ihl ihr
  | assign ht hk _ ih => exact .assign (hsub ht) hk ih
  | more _ ih => exact .more ih

theorem of_reference {tokens : List Token} {room n : Nat} {name : Token}
    (h : Made tokens room (.reference n name)) : name ∈ tokens ∧ name.kind = .identifier := by
  generalize he : Expr.reference n name = e at h
  induction h with
  | reference ht hk =>
    cases he
    exact ⟨ht, hk⟩
  | more _ ih => exact ih he
  | _ => cases he

end Expr.Made

/-! ### Expressions -/

/-- A step that makes expressions of the tokens that are left, within a room. -/
def Makes (room : Nat) (m : Parse Expr) : Prop :=
  ∀ s e s', m s = .ok e s' → e.Made s.rest room

theorem makes_foldOperators {operators : List Kind} {operand : Parse Expr} {tokens : List Token}
    {room : Nat} (hops : operators ⊆ infixKinds) (hfwd : Forward operand)
    (hmakes : Makes room operand) {rounds : Nat} {left e : Expr} {s s' : ParseState}
    (hs : s.rest ⊆ tokens) (hleft : left.Made tokens room)
    (h : foldOperators operators operand rounds left s = .ok e s') : e.Made tokens room := by
  induction rounds generalizing left s with
  | zero =>
    cases h
    exact hleft
  | succ rounds ih =>
    rcases accept_cases operators s with ⟨t, rest, hrest, hk, -⟩ | ⟨hnext, -⟩
    · rw [foldOperators_go_on hrest hk] at h
      obtain ⟨right, u, hright, h⟩ := bind_eq_ok_iff.1 h
      rw [bind_of_ok (newNode_apply u)] at h
      rw [hrest] at hs
      have ht : t ∈ tokens := hs List.mem_cons_self
      have hrest : rest ⊆ tokens := fun _ hx => hs (List.mem_cons_of_mem t hx)
      have hr : right.Made tokens room := (hmakes _ _ _ hright).mono hrest
      have hu : u.rest ⊆ tokens := fun _ hx => hrest ((hfwd.ok hright).rest.subset hx)
      exact ih (s := { u with nodes := u.nodes + 1 }) hu (.binary ht (hops hk) hleft hr) h
    · rw [foldOperators_stop hnext] at h
      cases h
      exact hleft

theorem makes_leftAssoc {operators : List Kind} {operand : Parse Expr} {room : Nat}
    (hops : operators ⊆ infixKinds) (hfwd : Forward operand) (hmakes : Makes room operand) :
    Makes room (leftAssoc operators operand) := by
  intro s e s' h
  obtain ⟨left, t, hleft, h⟩ := bind_eq_ok_iff.1 h
  exact makes_foldOperators hops hfwd hmakes (hfwd.ok hleft).rest.subset (hmakes _ _ _ hleft) h

theorem makes_closeGroup {inner : Parse Expr} {room : Nat} (hmakes : Makes room inner) :
    Makes (room + 1) (closeGroup inner) := by
  intro s e s' h
  obtain ⟨body, u, hbody, h⟩ := bind_eq_ok_iff.1 h
  obtain ⟨closing, v, -, h⟩ := bind_eq_ok_iff.1 h
  rw [bind_of_ok (newNode_apply _)] at h
  cases h
  exact .grouping (hmakes _ _ _ hbody)

theorem makes_assignment {room : Nat} (hequality : Makes room (Rule.parse room .equality))
    (hassignment : Makes room (Rule.parse room .assignment)) :
    Makes (room + 1) (Rule.parse (room + 1) .assignment) := by
  intro s e s' h
  rw [parse_assignment_eq] at h
  obtain ⟨target, t, htarget, h⟩ := bind_eq_ok_iff.1 h
  have hmade : target.Made s.rest room := hequality _ _ _ htarget
  rcases accept_cases [.equal] t with ⟨equals, rest, hrest, -, ha⟩ | ⟨-, ha⟩
  · rw [bind_of_ok ha] at h
    obtain ⟨value, u, hvalue, h⟩ := bind_eq_ok_iff.1 h
    have hsuffix : rest <:+ s.rest :=
      (hrest ▸ List.suffix_cons equals rest : rest <:+ t.rest).trans
        ((forward_parse room .equality).ok htarget).rest
    have hv : value.Made s.rest room := (hassignment _ _ _ hvalue).mono hsuffix.subset
    rcases assignTo_cases target equals value u with ⟨n, name, rfl, heq⟩ | ⟨-, heq⟩
    · rw [heq] at h
      cases h
      obtain ⟨hname, hk⟩ := hmade.of_reference
      exact .assign hname hk hv
    · -- an invalid target is dropped, and the value stands for the whole
      rw [heq] at h
      cases h
      exact .more hv
  · rw [bind_of_ok ha] at h
    cases h
    exact .more hmade

theorem makes_unary {room : Nat} (hunary : Makes room (Rule.parse room .unary))
    (hprimary : Makes room (Rule.parse room .primary)) :
    Makes (room + 1) (Rule.parse (room + 1) .unary) := by
  intro s e s' h
  rw [Rule.parse.eq_7] at h
  rcases accept_cases [.bang, .minus] s with ⟨t, rest, hrest, hk, ha⟩ | ⟨-, ha⟩
  · rw [bind_of_ok ha] at h
    obtain ⟨operand, u, hop, h⟩ := bind_eq_ok_iff.1 h
    rw [bind_of_ok (newNode_apply u)] at h
    cases h
    rw [hrest]
    have hoperand : operand.Made (t :: rest) room :=
      (hunary _ _ _ hop).mono (List.subset_cons_self t rest)
    exact .unary List.mem_cons_self hk hoperand
  · rw [bind_of_ok ha] at h
    exact .more (hprimary _ _ _ h)

theorem makes_primary {room : Nat} (hexpression : Makes room (Rule.parse room .expression)) :
    Makes (room + 1) (Rule.parse (room + 1) .primary) := by
  intro s e s' h
  rcases parse_primary_cases room s with ⟨t, rest, v, hrest, hv, heq⟩ | ⟨t, rest, f, -, -, -, heq⟩ |
    ⟨t, rest, hrest, hk, heq⟩ | ⟨t, rest, hrest, -, heq⟩ | ⟨-, heq⟩
  · rw [heq] at h
    cases h
    exact .literal (hrest ▸ List.mem_cons_self) hv
  · rw [heq] at h
    cases h
  · rw [heq] at h
    cases h
    exact .reference (hrest ▸ List.mem_cons_self) hk
  · rw [heq] at h
    exact (makes_closeGroup hexpression _ _ _ h).mono (hrest ▸ List.subset_cons_self t rest)
  · rw [heq] at h
    cases h

/-- Every rule makes expressions of the tokens that are left, within its room. -/
theorem made_of_parse (room : Nat) (r : Rule) : Makes room (Rule.parse room r) := by
  induction room, r using Rule.parse_induction with
  | expression room ih => exact fun s e s' h => .more (ih s e s' h)
  | assignment room ih₁ ih₂ => exact makes_assignment ih₁ ih₂
  | level room r operators q hl heq ih =>
    have hops : operators ⊆ infixKinds := by cases hl <;> decide
    rw [heq]
    exact fun s e s' h => .more (.more (makes_leftAssoc hops (forward_parse room q) ih s e s' h))
  | unary room ih₁ ih₂ => exact makes_unary ih₁ ih₂
  | primary room ih => exact makes_primary ih
  | noRoom room r heq =>
    intro s e s' h
    rw [heq] at h
    cases h

/-! ### Statements and programs -/

/-- The statements that can be made of tokens within a room. -/
inductive Stmt.Made (tokens : List Token) (room : Nat) : Stmt → Prop
  | expression {n : Nat} {e : Expr} : e.Made tokens room → Made tokens room (.expression n e)
  | print {n : Nat} {e : Expr} : e.Made tokens room → Made tokens room (.print n e)
  | declare {n : Nat} {name : Token} : name ∈ tokens → name.kind = .identifier →
    Made tokens room (.var n name none)
  | declareAs {n : Nat} {name : Token} {e : Expr} : name ∈ tokens → name.kind = .identifier →
    e.Made tokens room → Made tokens room (.var n name (some e))

theorem Stmt.Made.mono {tokens tokens' : List Token} {room : Nat} {stmt : Stmt}
    (h : Made tokens' room stmt) (hsub : tokens' ⊆ tokens) : Made tokens room stmt := by
  cases h with
  | expression he => exact .expression (he.mono hsub)
  | print he => exact .print (he.mono hsub)
  | declare ht hk => exact .declare (hsub ht) hk
  | declareAs ht hk he => exact .declareAs (hsub ht) hk (he.mono hsub)

theorem made_of_statementRun {room : Nat} {s s' : ParseState} {stmt : Stmt}
    (h : StatementRun room s stmt s') : stmt.Made s.rest room := by
  cases h with
  | var hrest _ hid =>
    rw [hrest]
    exact .declare (List.mem_cons_of_mem _ List.mem_cons_self) hid
  | @varInit kw name equals semi rest rest' e t hrest _ hid _ he =>
    have he : e.Made rest room := made_of_parse room .expression _ _ _ he
    have hsuffix : rest <:+ kw :: name :: equals :: rest := ⟨[kw, name, equals], rfl⟩
    rw [hrest]
    exact .declareAs (List.mem_cons_of_mem _ List.mem_cons_self) hid (he.mono hsuffix.subset)
  | @print kw semi rest rest' e t hrest _ he =>
    have he : e.Made rest room := made_of_parse room .expression _ _ _ he
    rw [hrest]
    exact .print (he.mono (List.subset_cons_self kw rest))
  | expression _ _ he => exact .expression (made_of_parse room .expression _ _ _ he)

theorem made_of_programRun {room : Nat} {s s' : ParseState} {stmts : List Stmt}
    (h : ProgramRun room s stmts s') : ∀ stmt ∈ stmts, stmt.Made s.rest room := by
  induction h with
  | done => exact fun stmt hmem => nomatch hmem
  | @next s t s' stmt? stmts hne hd _ ih =>
    intro stmt hmem
    rcases List.mem_append.1 hmem with hmem | hmem
    · -- only a statement that ended well is kept
      rcases declaration_cases room s with ⟨stmt', t', hst, hd'⟩ | ⟨f, d, t', -, -, hd'⟩ |
        ⟨f, t', -, -, hd'⟩
      · rw [hd'] at hd
        cases hd
        cases List.mem_singleton.1 hmem
        exact made_of_statementRun (statementRun_of_ok hst)
      · rw [hd'] at hd
        cases hd
        cases hmem
      · rw [hd'] at hd
        cases hd
    · exact (ih stmt hmem).mono (extends_of_declaration hd hne).1.rest.subset

/-- The tokens of a source text make up a program, and its statements are made of them. -/
theorem made_of_ofSource (text : String) :
    ∃ program, Program.ofTokens (Scan.ofSource text).tokens = .ok program ∧
      ∀ stmt ∈ program.statements, stmt.Made (sourceTokens text) nestingRoom := by
  have hend : (sourceEnd text).kind = .eof := rfl
  obtain ⟨stmts, s', hrun, hprogram⟩ := Program.exists_run (scannerShaped_sourceTokens text) hend
  rw [Scan.ofSource_tokens]
  exact ⟨_, hprogram, made_of_programRun hrun⟩

/-! ### Shapes -/

/-- The trees of parsed expressions. -/
inductive Tree.IsExpression : Tree → Prop
  | literal {v : Value} : v.isLox = true → IsExpression (.literal v)
  | grouping {e : Tree} : IsExpression e → IsExpression (.grouping e)
  | unary {operator : Token} {e : Tree} : operator.kind ∈ [Kind.bang, .minus] → IsExpression e →
    IsExpression (.unary (.token operator) e)
  | binary {operator : Token} {l r : Tree} : operator.kind ∈ infixKinds → IsExpression l →
    IsExpression r → IsExpression (.binary l (.token operator) r)
  | reference (name : Token) : IsExpression (.reference (.token name))
  | assign (name : Token) {e : Tree} : IsExpression e → IsExpression (.assign (.token name) e)

/-- The trees of parsed statements. -/
inductive Tree.IsStatement : Tree → Prop
  | expression {e : Tree} : IsExpression e → IsStatement (.expressionStmt e)
  | print {e : Tree} : IsExpression e → IsStatement (.printStmt e)
  | declare (name : Token) : IsStatement (.varDecl (.token name) .missing)
  | declareAs (name : Token) {e : Tree} : IsExpression e → IsStatement (.varDecl (.token name) e)

theorem LiteralToken.isLox {t : Token} {v : Value} (h : LiteralToken t v) (ht : t.Scanned) :
    v.isLox = true := by
  cases h with
  | isFalse => rfl
  | isTrue => rfl
  | isNil => rfl
  | number hk hv =>
    obtain ⟨x, hx⟩ := ht.number hk
    rw [hx] at hv
    cases hv
    rfl
  | string hk =>
    obtain ⟨text, htext⟩ := ht.string hk
    unfold stringValue
    rw [htext]
    rfl

theorem Expr.Made.isExpression {tokens : List Token} {room : Nat} {e : Expr}
    (h : e.Made tokens room) (hs : ∀ t ∈ tokens, t.Scanned) : e.toTree.IsExpression := by
  induction h with
  | literal ht hv => exact .literal (hv.isLox (hs _ ht))
  | reference => exact .reference _
  | grouping _ ih => exact .grouping ih
  | unary _ hk _ ih => exact .unary hk ih
  | binary _ hk _ _ ihl ihr => exact .binary hk ihl ihr
  | assign _ _ _ ih => exact .assign _ ih
  | more _ ih => exact ih

theorem Stmt.Made.isStatement {tokens : List Token} {room : Nat} {stmt : Stmt}
    (h : stmt.Made tokens room) (hs : ∀ t ∈ tokens, t.Scanned) : stmt.toTree.IsStatement := by
  cases h with
  | expression he => exact .expression (he.isExpression hs)
  | print he => exact .print (he.isExpression hs)
  | declare => exact .declare _
  | declareAs _ _ he => exact .declareAs _ (he.isExpression hs)

/-- Every source text spells a program, of trees of statements. -/
theorem isStatement_of_ofSource (text : String) :
    ∃ program, Program.ofTokens (Scan.ofSource text).tokens = .ok program ∧
      ∀ stmt ∈ program.statements, stmt.toTree.IsStatement := by
  obtain ⟨program, hprogram, hmade⟩ := made_of_ofSource text
  exact ⟨program, hprogram, fun stmt hmem =>
    (hmade stmt hmem).isStatement (scanned_sourceTokens text)⟩

theorem made_of_ofTokens {text : String} {program : Program}
    (h : Program.ofTokens (Scan.ofSource text).tokens = .ok program) :
    ∀ stmt ∈ program.statements, stmt.Made (sourceTokens text) nestingRoom := by
  obtain ⟨p, hp, hmade⟩ := made_of_ofSource text
  rw [h] at hp
  cases hp
  exact hmade

theorem isStatement_of_ofTokens {text : String} {program : Program}
    (h : Program.ofTokens (Scan.ofSource text).tokens = .ok program) :
    ∀ t ∈ program.statements.map Stmt.toTree, t.IsStatement := by
  intro t ht
  obtain ⟨stmt, hmem, rfl⟩ := List.mem_map.1 ht
  exact (made_of_ofTokens h stmt hmem).isStatement (scanned_sourceTokens text)

/-- The complaints of the scanner come before those of the parser. -/
theorem Program.ofSource_eq {text : String} {program : Program}
    (h : Program.ofTokens (Scan.ofSource text).tokens = .ok program) :
    Program.ofSource text =
      .ok { program with errors := (Scan.ofSource text).errors ++ program.errors } := by
  show (Program.ofTokens (Scan.ofSource text).tokens >>= fun program => _) = _
  rw [h]
  rfl

end LoxTree
