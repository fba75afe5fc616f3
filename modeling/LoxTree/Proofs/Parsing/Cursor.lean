import LoxTree.Proofs.Parsing.Steps

/-!
# The parser with a cursor

A parser can also keep the whole token list and the place of the next token in it. Such a parser may
go wrong in ways that are not open to one that only holds the tokens that are left: it may look
beyond either end of the list, and nothing that is seen bounds its loops. `Cursor` is that parser,
and it is checked: a look at a place outside of the list, a cursor that is moved to one and a loop
that goes on for more rounds than there are tokens are faults of their own.

* `SplitsAt tokens before ending`: the first end marker of a list, with the tokens before it.
* `Tracks before ending s c`: the cursor stands where the tokens that are left begin.
* `Follows before ending m n`: the step `n` of this parser does what the step `m` of `Parse` does,
  and so none of these faults arises in it. The lemmas on the small steps say so of each of them.
-/

namespace LoxTree

open Step

/-! ### The parser -/

/-- Why the parser with a cursor breaks off. -/
inductive Halt where
  /-- A fault that the parser raises itself. -/
  | fault (f : Fault)
  /-- There is no token where the parser looks. -/
  | outside
  /-- A loop went on for more rounds than there are tokens. -/
  | endless

/-- The state of the parser with a cursor. -/
structure CursorState where
  /-- The place of the next token. -/
  current : Nat := 0
  /-- The number of nodes made so far. -/
  nodes : Nat := 0
  /-- The complaints so far, in the order in which they were recorded. -/
  errors : List Diagnostic := []

/-- A step of the parser with a cursor. -/
abbrev Cursor := EStateM Halt CursorState

namespace Cursor

/-- Records a complaint and goes on. -/
def record (d : Diagnostic) : Cursor Unit :=
  modify fun c => { c with errors := c.errors ++ [d] }

/-- The number of a new node. -/
def newNode : Cursor Nat := do
  modify fun c => { c with nodes := c.nodes + 1 }
  return (← get).nodes

/-- A literal node. -/
def literal (value : Value) : Cursor Expr :=
  return .literal (← newNode) value

/-- A value, or the fault that stands in its place. -/
def ofFallible {α : Type} : Except Fault α → Cursor α
  | .ok a => return a
  | .error f => throw (.fault f)

variable (tokens : List Token)

/-- The token at a place. -/
def look (i : Nat) : Cursor Token :=
  match tokens[i]? with
  | some t => return t
  | none => throw .outside

/-- The next token. -/
def peek : Cursor Token := do
  look tokens (← get).current

/-- The token before the next one. -/
def previous : Cursor Token := do
  match (← get).current with
  | 0 => throw .outside
  | i + 1 => look tokens i

/-- Whether the next token is an end marker. -/
def isAtEnd : Cursor Bool :=
  return (← peek tokens).kind = .eof

/-- Goes on by one token, but not beyond an end marker, and gives the token before. -/
def advance : Cursor Token := do
  unless ← isAtEnd tokens do
    let c ← get
    let _ ← look tokens (c.current + 1)
    set { c with current := c.current + 1 }
  previous tokens

/-- Whether the next token is of the given kind. -/
def check (kind : Kind) : Cursor Bool := do
  if ← isAtEnd tokens then return false
  else return (← peek tokens).kind = kind

/-- Goes on by one token if it is of one of the given kinds. -/
def matchAny : List Kind → Cursor Bool
  | [] => return false
  | kind :: kinds => do
    if ← check tokens kind then
      let _ ← advance tokens
      return true
    else matchAny kinds

/-- Consumes the next token if it is of one of the given kinds. -/
def accept (kinds : List Kind) : Cursor (Option Token) := do
  if ← matchAny tokens kinds then return some (← previous tokens)
  else return none

/-- Fails with a complaint about the next token. -/
def complain {α : Type} (complaint : Complaint) : Cursor α := do
  throw (.fault (.diagnostic (.grammatical (← peek tokens) complaint)))

/-- Consumes a token of the given kind, or fails with the complaint. -/
def expect (kind : Kind) (complaint : Complaint) : Cursor Token := do
  if ← check tokens kind then advance tokens
  else complain tokens complaint

/-- Goes on with operators and operands while there are operators, folding to the left. -/
def foldOperators (operators : List Kind) (operand : Cursor Expr) : Nat → Expr → Cursor Expr
  | 0, _ => throw .endless
  | rounds + 1, left => do
    match ← accept tokens operators with
    | none => return left
    | some operator =>
      let right ← operand
      let node := Expr.binary (← newNode) left operator right
      foldOperators operators operand rounds node

/-- Operands with operators between them, grouped to the left. -/
def leftAssoc (operators : List Kind) (operand : Cursor Expr) : Cursor Expr := do
  let left ← operand
  foldOperators tokens operators operand tokens.length left

/-- Parses by a rule, within the given room. -/
def parse : Nat → Rule → Cursor Expr
  | room + 1, .expression => parse room .assignment
  | room + 1, .assignment => do
    let target ← parse room .equality
    match ← accept tokens [.equal] with
    | none => return target
    | some equals =>
      let value ← parse room .assignment
      match target with
      | .reference _ name => return .assign (← newNode) name value
      | _ =>
        record (.grammatical equals .invalidTarget)
        return value
  | room + 2, .equality => leftAssoc tokens [.bangEqual, .equalEqual] (parse room .comparison)
  | room + 2, .comparison =>
    leftAssoc tokens [.greater, .greaterEqual, .less, .lessEqual] (parse room .term)
  | room + 2, .term => leftAssoc tokens [.minus, .plus] (parse room .factor)
  | room + 2, .factor => leftAssoc tokens [.slash, .star] (parse room .unary)
  | room + 1, .unary => do
    match ← accept tokens [.bang, .minus] with
    | some operator =>
      let operand ← parse room .unary
      return .unary (← newNode) operator operand
    | none => parse room .primary
  | room + 1, .primary => do
    match ← accept tokens primaryStarts with
    | none => complain tokens .expectExpression
    | some t =>
      match t.kind with
      | .kwFalse => literal (.boolean false)
      | .kwTrue => literal (.boolean true)
      | .kwNil => literal .nil
      | .number => literal (← ofFallible (Parse.numberValue t))
      | .string => literal (Parse.stringValue t)
      | .identifier => return .reference (← newNode) t
      | _ =>
        let inner ← parse room .expression
        let _ ← expect tokens .rightParen .expectClosingParen
        return .grouping (← newNode) inner
  | _, _ => throw (.fault .tooDeep)

/-- A declaration of a variable, after its keyword. -/
def varDeclaration (room : Nat) : Cursor Stmt := do
  let name ← expect tokens .identifier .expectVariableName
  let initializer ← match ← accept tokens [.equal] with
    | some _ => some <$> parse tokens room .expression
    | none => pure none
  let _ ← expect tokens .semicolon .expectDeclarationEnd
  return .var (← newNode) name initializer

/-- A print statement, after its keyword. -/
def printStatement (room : Nat) : Cursor Stmt := do
  let value ← parse tokens room .expression
  let _ ← expect tokens .semicolon .expectValueEnd
  return .print (← newNode) value

/-- An expression statement. -/
def expressionStatement (room : Nat) : Cursor Stmt := do
  let e ← parse tokens room .expression
  let _ ← expect tokens .semicolon .expectStatementEnd
  return .expression (← newNode) e

/-- A declaration or statement. -/
def statement (room : Nat) : Cursor Stmt := do
  match ← accept tokens [.kwVar] with
  | some _ => varDeclaration tokens room
  | none =>
    match ← accept tokens [.kwPrint] with
    | some _ => printStatement tokens room
    | none => expressionStatement tokens room

/-- Goes on until behind a semicolon or before a word that starts a statement. -/
def skip : Nat → Cursor Unit
  | 0 => throw .endless
  | rounds + 1 => do
    if ← isAtEnd tokens then return
    else if (← previous tokens).kind = .semicolon then return
    else if (← peek tokens).kind ∈ Kind.statementStarts then return
    else
      let _ ← advance tokens
      skip rounds

/-- Skips at least one token, up to where parsing resumes. -/
def synchronize : Cursor Unit := do
  let _ ← advance tokens
  skip tokens tokens.length

/-- A declaration; one that fails is recorded and skipped. -/
def declaration (room : Nat) : Cursor (Option Stmt) :=
  tryCatch (some <$> statement tokens room) fun
    | .fault (.diagnostic d) => do record d; synchronize tokens; return none
    | .fault .tooDeep => do
      record (.grammatical (← peek tokens) .nestedTooDeeply)
      synchronize tokens
      return none
    | halt => throw halt

/-- Declarations up to the end marker. -/
def declarations (room : Nat) : Nat → Cursor (List Stmt)
  | 0 => throw .endless
  | rounds + 1 => do
    if ← isAtEnd tokens then return []
    else
      let stmt ← declaration tokens room
      return stmt.toList ++ (← declarations room rounds)

/-- An expression that stands alone; the first complaint of those recorded is thrown. -/
def standalone (room : Nat) : Cursor Expr := do
  let e ← tryCatch (parse tokens room .expression) fun
    | .fault .tooDeep => complain tokens .nestedTooDeeply
    | halt => throw halt
  unless ← isAtEnd tokens do
    record (.grammatical (← peek tokens) .expectExpressionEnd)
  match (← get).errors with
  | d :: _ => throw (.fault (.diagnostic d))
  | [] => return e

end Cursor

/-! ### The two parsers side by side -/

/-- The list `tokens` starts with the tokens `before`, none of which is an end marker, and the end
marker `ending`. -/
structure SplitsAt (tokens before : List Token) (ending : Token) : Prop where
  start : before ++ [ending] <+: tokens
  noEnding : ∀ t ∈ before, t.kind ≠ .eof
  isEnding : ending.kind = .eof

theorem SplitsAt.length_lt {tokens before : List Token} {ending : Token}
    (h : SplitsAt tokens before ending) : before.length < tokens.length := by
  have hle := h.start.length_le
  rwa [List.length_append, List.length_singleton] at hle

/-- The cursor stands where the tokens that are left begin. -/
structure Tracks (before : List Token) (ending : Token) (s : ParseState) (c : CursorState) :
    Prop where
  inRange : c.current ≤ before.length
  rest : s.rest = before.drop c.current
  ending : s.ending = ending
  nodes : c.nodes = s.nodes
  errors : c.errors = s.errors

/-- The step `n` with a cursor does what the step `m` does on the tokens that are left. -/
abbrev Follows (before : List Token) (ending : Token) {α : Type} (m : Parse α) (n : Cursor α) :
    Prop :=
  Coincide (Tracks before ending) (fun f halt => halt = .fault f) m n

namespace Tracks

variable {before : List Token} {ending t : Token} {rest : List Token} {s : ParseState}
  {c : CursorState}

/-- Taking the next token. -/
theorem take (h : Tracks before ending s c) (hs : s.rest = t :: rest) :
    Tracks before ending { s with rest } { c with current := c.current + 1 } := by
  have hdrop : before.drop c.current = t :: rest := h.rest ▸ hs
  have hlt : c.current < before.length := by
    have hlen := congrArg List.length hdrop
    rw [List.length_drop, List.length_cons] at hlen
    omega
  refine ⟨hlt, ?_, h.ending, h.nodes, h.errors⟩
  rw [← List.drop_drop, hdrop]
  rfl

theorem length_le (h : Tracks before ending s c) : s.rest.length ≤ before.length := by
  rw [h.rest]
  exact (List.drop_suffix _ _).length_le

theorem before_ne_nil (h : Tracks before ending s c) (hrest : s.rest ≠ []) : before ≠ [] := by
  rintro rfl
  exact hrest (by rw [h.rest, List.drop_nil])

/-- The cursor counts the tokens that are consumed. -/
theorem consumed_eq (h : Tracks before ending s c) :
    before.length - s.rest.length = c.current := by
  have hle := h.inRange
  rw [h.rest, List.length_drop]
  omega

/-- No token is left exactly if all are consumed. -/
theorem rest_eq_nil_iff (h : Tracks before ending s c) :
    s.rest = [] ↔ c.current = before.length := by
  have hle := h.inRange
  rw [h.rest, List.drop_eq_nil_iff]
  omega

end Tracks

namespace Cursor

section

variable {tokens before : List Token} {ending t : Token} {rest : List Token} {s : ParseState}
  {c : CursorState}

theorem look_apply {i : Nat} (h : tokens[i]? = some t) (c : CursorState) :
    look tokens i c = .ok t c := by
  unfold look
  rw [h]
  rfl

theorem previous_apply {i : Nat} (hi : c.current = i + 1) (h : tokens[i]? = some t) :
    previous tokens c = .ok t c := by
  obtain ⟨current, nodes, errors⟩ := c
  cases hi
  exact look_apply h _

variable (hsplit : SplitsAt tokens before ending)

include hsplit

/-- The places of the list up to the first end marker. -/
theorem getElem?_of_le {i : Nat} (hi : i ≤ before.length) :
    tokens[i]? = some ((before.drop i).headD ending) := by
  obtain ⟨after, rfl⟩ := hsplit.start
  rw [List.append_assoc, List.headD_eq_head?_getD, List.head?_drop]
  rcases Nat.lt_or_eq_of_le hi with hlt | rfl
  · rw [List.getElem?_append_left hlt, List.getElem?_eq_getElem hlt]
    rfl
  · rw [List.getElem?_append_right (Nat.le_refl _), Nat.sub_self,
      List.getElem?_eq_none (Nat.le_refl _)]
    rfl

theorem getElem?_current (h : Tracks before ending s c) (hs : s.rest = t :: rest) :
    tokens[c.current]? = some t := by
  rw [getElem?_of_le hsplit h.inRange, ← h.rest, hs]
  rfl

theorem peek_apply (h : Tracks before ending s c) :
    peek tokens c = .ok (s.rest.headD s.ending) c := by
  have hlook := getElem?_of_le hsplit h.inRange
  rw [← h.rest, ← h.ending] at hlook
  exact look_apply hlook c

theorem isAtEnd_apply (h : Tracks before ending s c) :
    isAtEnd tokens c = .ok s.rest.isEmpty c := by
  unfold isAtEnd
  rw [bind_of_ok (peek_apply hsplit h)]
  cases hs : s.rest with
  | nil =>
    have hend : s.ending.kind = .eof := h.ending ▸ hsplit.isEnding
    exact congrArg (EStateM.Result.ok · c) (decide_eq_true hend)
  | cons t rest =>
    have hmem : t ∈ before := List.mem_of_mem_drop (h.rest ▸ hs ▸ List.mem_cons_self)
    exact congrArg (EStateM.Result.ok · c) (decide_eq_false (hsplit.noEnding t hmem))

theorem advance_of_cons (h : Tracks before ending s c) (hs : s.rest = t :: rest) :
    advance tokens c = .ok t { c with current := c.current + 1 } := by
  have hnext := getElem?_of_le hsplit (h.take hs).inRange
  have hend := isAtEnd_apply hsplit h
  rw [hs] at hend
  unfold advance
  rw [bind_of_ok hend]
  show (look tokens (c.current + 1) >>= _) c = _
  rw [bind_of_ok (look_apply hnext c)]
  exact previous_apply (c := { c with current := c.current + 1 }) rfl
    (getElem?_current hsplit h hs)

/-- At the end marker the cursor stays, behind the last token before it if there is one. -/
theorem advance_of_nil (h : Tracks before ending s c) (hs : s.rest = []) (hne : before ≠ []) :
    ∃ i t, c.current = i + 1 ∧ tokens[i]? = some t ∧ advance tokens c = .ok t c := by
  obtain ⟨i, hi⟩ := Nat.exists_eq_succ_of_ne_zero (mt List.length_eq_zero_iff.1 hne)
  have hcurrent : c.current = i + 1 := (h.rest_eq_nil_iff.1 hs).trans hi
  have hlast := getElem?_of_le hsplit (hi ▸ Nat.le_succ i)
  have hend := isAtEnd_apply hsplit h
  rw [hs] at hend
  refine ⟨i, _, hcurrent, hlast, ?_⟩
  unfold advance
  rw [bind_of_ok hend]
  exact previous_apply hcurrent hlast

theorem check_of_cons (h : Tracks before ending s c) (hs : s.rest = t :: rest) (kind : Kind) :
    check tokens kind c = .ok (decide (t.kind = kind)) c := by
  have hend := isAtEnd_apply hsplit h
  have hpeek := peek_apply hsplit h
  rw [hs] at hend hpeek
  unfold check
  rw [bind_of_ok hend]
  show (peek tokens >>= _) c = _
  rw [bind_of_ok hpeek]
  rfl

theorem check_of_notMem (h : Tracks before ending s c) {kind : Kind}
    (hk : Parse.NextNotIn [kind] s.rest) : check tokens kind c = .ok false c := by
  cases hs : s.rest with
  | nil =>
    have hend := isAtEnd_apply hsplit h
    rw [hs] at hend
    unfold check
    rw [bind_of_ok hend]
    rfl
  | cons t rest =>
    have hne : t.kind ≠ kind := fun hk' => hk t (hs ▸ rfl) (List.mem_singleton.2 hk')
    rw [check_of_cons hsplit h hs, decide_eq_false hne]

theorem matchAny_of_mem (h : Tracks before ending s c) (hs : s.rest = t :: rest)
    {kinds : List Kind} (hk : t.kind ∈ kinds) :
    matchAny tokens kinds c = .ok true { c with current := c.current + 1 } := by
  induction kinds with
  | nil => cases hk
  | cons kind kinds ih =>
    unfold matchAny
    rw [bind_of_ok (check_of_cons hsplit h hs kind)]
    by_cases heq : t.kind = kind
    · rw [decide_eq_true heq]
      show (advance tokens >>= _) c = _
      rw [bind_of_ok (advance_of_cons hsplit h hs)]
      rfl
    · rw [decide_eq_false heq]
      exact ih ((List.mem_cons.1 hk).resolve_left heq)

theorem matchAny_of_notMem (h : Tracks before ending s c) {kinds : List Kind}
    (hk : Parse.NextNotIn kinds s.rest) : matchAny tokens kinds c = .ok false c := by
  induction kinds with
  | nil => rfl
  | cons kind kinds ih =>
    have hkind : Parse.NextNotIn [kind] s.rest := hk.mono (by simp)
    have hkinds : Parse.NextNotIn kinds s.rest := hk.mono (List.subset_cons_self kind kinds)
    unfold matchAny
    rw [bind_of_ok (check_of_notMem hsplit h hkind)]
    exact ih hkinds

/-! ### The small steps -/

theorem follows_accept (kinds : List Kind) :
    Follows before ending (Parse.accept kinds) (accept tokens kinds) := by
  intro s c h
  unfold accept
  rcases Parse.accept_cases kinds s with ⟨t, rest, hs, hk, ha⟩ | ⟨hk, ha⟩
  · rw [ha, bind_of_ok (matchAny_of_mem hsplit h hs hk)]
    show SameOutcome _ _ _ ((previous tokens >>= _) _)
    rw [bind_of_ok (previous_apply rfl (getElem?_current hsplit h hs))]
    exact ⟨rfl, h.take hs⟩
  · rw [ha, bind_of_ok (matchAny_of_notMem hsplit h hk)]
    exact ⟨rfl, h⟩

theorem follows_peek : Follows before ending Parse.peek (peek tokens) := by
  intro s c h
  rw [peek_apply hsplit h]
  exact ⟨rfl, h⟩

theorem follows_complain {α : Type} (complaint : Complaint) :
    Follows before ending (Parse.complain complaint : Parse α) (complain tokens complaint) :=
  (follows_peek hsplit).bind fun _ => .throw rfl

theorem follows_expect (kind : Kind) (complaint : Complaint) :
    Follows before ending (Parse.expect kind complaint) (expect tokens kind complaint) := by
  intro s c h
  unfold expect
  rcases Parse.expect_cases kind complaint s with ⟨t, rest, hs, hk, he⟩ | ⟨hk, he⟩
  · rw [he, bind_of_ok (check_of_cons hsplit h hs kind), decide_eq_true hk]
    show SameOutcome _ _ _ (advance tokens c)
    rw [advance_of_cons hsplit h hs]
    exact ⟨rfl, h.take hs⟩
  · rw [bind_of_ok (check_of_notMem hsplit h hk), he, ← Parse.complain_apply complaint s]
    exact follows_complain hsplit complaint s c h

end

section

variable {before : List Token} {ending : Token}

theorem follows_record (d : Diagnostic) : Follows before ending (Parse.record d) (record d) := by
  intro s c h
  refine ⟨rfl, h.inRange, h.rest, h.ending, h.nodes, ?_⟩
  show c.errors ++ [d] = s.errors ++ [d]
  rw [h.errors]

theorem follows_newNode : Follows before ending Parse.newNode newNode := by
  intro s c h
  have hnodes : c.nodes + 1 = s.nodes + 1 := by rw [h.nodes]
  exact ⟨hnodes, h.inRange, h.rest, h.ending, hnodes, h.errors⟩

theorem follows_literal (value : Value) :
    Follows before ending (Parse.literal value) (literal value) :=
  follows_newNode.bind fun _ => .pure _

theorem follows_ofFallible {α : Type} (x : Except Fault α) :
    Follows before ending (ofExcept x) (ofFallible x) := by
  cases x with
  | ok a => exact .pure a
  | error f => exact .throw rfl

end

end Cursor

end LoxTree
