import LoxTree.Proofs.Parsing.Grammar
import LoxTree.Proofs.Parsing.Statements

/-!
# The parser recognises the grammar

The parser accepts exactly the token lists that the grammar derives, and makes the derivation's
tree.

* `derives_of_parse`: what a rule parses without a complaint derives from it. A target of an
  assignment is found by looking at its tree, which is sound because only an identifier has the tree
  of a variable.
* `parse_of_derives`: tokens that derive from a rule are parsed by it, to the derivation's tree and
  up to their end, unless the room runs out. The token behind them must not go on with them
  (`Rule.follow`): the parser takes operators as long as there are any. The room is enough if there
  are twelve units for each level of nesting (`Rule.need`).
* `ofTokens_recognizes_grammar`: both directions for whole programs and for single expressions.
-/

namespace LoxTree

open Step Parse Grammar

/-! ### What is parsed derives -/

/-- What a step parses without a complaint derives from a rule. -/
def Sound (m : Parse Expr) (r : Rule) : Prop :=
  ∀ s e s', m s = .ok e s' → s'.errors = s.errors →
    ∃ tokens, s.rest = tokens ++ s'.rest ∧ Derives r tokens e.toTree

/-- The loop over operators reads operations. -/
theorem sound_foldOperators {operators : List Kind} {q : Rule} {operand : Parse Expr}
    (hfwd : Forward operand) (hsound : Sound operand q) {rounds : Nat} {left e : Expr}
    {s s' : ParseState} (h : foldOperators operators operand rounds left s = .ok e s')
    (herr : s'.errors = s.errors) :
    ∃ operations : List Operation, s.rest = operations.flatMap Operation.tokens ++ s'.rest ∧
      (∀ o ∈ operations, o.operator.kind ∈ operators) ∧
      (∀ o ∈ operations, Derives q o.operand o.tree) ∧
      e.toTree = operations.foldl Operation.applyTo left.toTree := by
  induction rounds generalizing left s with
  | zero =>
    cases h
    exact ⟨[], rfl, by simp, by simp, rfl⟩
  | succ rounds ih =>
    rcases accept_cases operators s with ⟨t, rest, hs, hk, -⟩ | ⟨hnext, -⟩
    · rw [foldOperators_go_on hs hk] at h
      obtain ⟨right, u, hright, h⟩ := bind_eq_ok_iff.1 h
      rw [bind_of_ok (newNode_apply u)] at h
      -- no complaint was recorded in the operand, nor in the rounds after it
      have hfold := (forward_foldOperators hfwd rounds _).ok h
      have hu : u.errors = s.errors :=
        (hfwd.ok hright).errors_eq ⟨hfold.ending, hfold.rest, hfold.errors⟩ herr
      obtain ⟨tokens, htokens, hd⟩ := hsound _ _ _ hright hu
      obtain ⟨operations, hrest, hops, hds, htree⟩ := ih h (herr.trans hu.symm)
      refine ⟨⟨t, tokens, right.toTree⟩ :: operations, ?_, ?_, ?_, htree⟩
      · rw [hs]
        show t :: rest = _
        have hrest' : u.rest = operations.flatMap Operation.tokens ++ s'.rest := hrest
        have htokens' : rest = tokens ++ u.rest := htokens
        rw [htokens', hrest', List.flatMap_cons, Operation.tokens]
        simp only [List.cons_append, List.append_assoc]
      · intro o ho
        rcases List.mem_cons.1 ho with rfl | ho
        · exact hk
        · exact hops o ho
      · intro o ho
        rcases List.mem_cons.1 ho with rfl | ho
        · exact hd
        · exact hds o ho
    · rw [foldOperators_stop hnext] at h
      cases h
      exact ⟨[], rfl, by simp, by simp, rfl⟩

theorem sound_leftAssoc {operators : List Kind} {r q : Rule} {operand : Parse Expr}
    (hl : Rule.Level r operators q) (hfwd : Forward operand) (hsound : Sound operand q) :
    Sound (leftAssoc operators operand) r := by
  intro s e s' h herr
  obtain ⟨left, t, hleft, h⟩ := bind_eq_ok_iff.1 h
  have h : foldOperators operators operand t.rest.length left t = .ok e s' := h
  have ht := (hfwd.ok hleft).errors_eq ((forward_foldOperators hfwd _ _).ok h) herr
  obtain ⟨first, hfirst, hd⟩ := hsound _ _ _ hleft ht
  obtain ⟨operations, hrest, hops, hds, htree⟩ :=
    sound_foldOperators hfwd hsound h (herr.trans ht.symm)
  refine ⟨first ++ operations.flatMap Operation.tokens, ?_, ?_⟩
  · rw [hfirst, hrest, List.append_assoc]
  · rw [htree]
    exact .level operations hl hd hops hds

theorem sound_closeGroup {inner : Parse Expr} {t : Token} {rest : List Token} {s s' : ParseState}
    {e : Expr} (hsound : Sound inner .expression)
    (hs : s.rest = t :: rest) (hk : t.kind = .leftParen)
    (h : closeGroup inner { s with rest } = .ok e s') (herr : s'.errors = s.errors) :
    ∃ tokens, s.rest = tokens ++ s'.rest ∧ Derives .primary tokens e.toTree := by
  obtain ⟨body, u, hbody, h⟩ := bind_eq_ok_iff.1 h
  obtain ⟨closing, v, hclose, h⟩ := bind_eq_ok_iff.1 h
  obtain ⟨after, hafter, hck, rfl⟩ := expect_eq_ok hclose
  rw [bind_of_ok (newNode_apply _)] at h
  cases h
  obtain ⟨tokens, htokens, hd⟩ := hsound _ _ _ hbody herr
  have htokens : rest = tokens ++ u.rest := htokens
  refine ⟨t :: tokens ++ [closing], ?_, .grouping hk hd hck⟩
  rw [hs, htokens, hafter]
  simp

/-- What a rule parses without a complaint derives from it. -/
theorem derives_of_parse (room : Nat) (r : Rule) : Sound (Rule.parse room r) r := by
  induction room, r using Rule.parse_induction with
  | expression room ih =>
    intro s e s' h herr
    obtain ⟨tokens, hrest, hd⟩ := ih s e s' h herr
    exact ⟨tokens, hrest, .expression hd⟩
  | assignment room ih₁ ih₂ =>
    intro s e s' h herr
    rw [parse_assignment_eq] at h
    obtain ⟨target, t, htarget, h⟩ := bind_eq_ok_iff.1 h
    rcases accept_cases [.equal] t with ⟨equals, rest, ht, hk, ha⟩ | ⟨-, ha⟩
    · rw [bind_of_ok ha] at h
      obtain ⟨value, u, hvalue, h⟩ := bind_eq_ok_iff.1 h
      have hext₁ := (forward_parse room .equality).ok htarget
      have hext₂ := (forward_parse room .assignment).ok hvalue
      rcases assignTo_cases target equals value u with ⟨id, name, rfl, heq⟩ | ⟨-, heq⟩
      · -- the target is a variable, and only an identifier has that tree
        rw [heq] at h
        cases h
        have hterr : t.errors = s.errors :=
          hext₁.errors_eq ((ParseState.Extends.take ht t.nodes).trans hext₂) herr
        obtain ⟨tokens₁, hrest₁, hd₁⟩ := ih₁ _ _ _ htarget hterr
        obtain ⟨rfl, hid⟩ := hd₁.eq_singleton_of_reference
        obtain ⟨tokens₂, hrest₂, hd₂⟩ := ih₂ _ _ _ hvalue (herr.trans hterr.symm)
        have hrest₂ : rest = tokens₂ ++ u.rest := hrest₂
        refine ⟨name :: equals :: tokens₂, ?_, .assign hid (List.mem_singleton.1 hk) hd₂⟩
        rw [hrest₁, ht, hrest₂]
        rfl
      · -- any other target is a complaint, and there was none
        rw [heq] at h
        cases h
        have hext := hext₁.trans ((ParseState.Extends.take ht t.nodes).trans hext₂)
        have hlen := hext.errors.length_le
        have herr := congrArg List.length herr
        rw [List.length_append, List.length_singleton] at herr
        omega
    · rw [bind_of_ok ha] at h
      cases h
      obtain ⟨tokens, hrest, hd⟩ := ih₁ _ _ _ htarget herr
      exact ⟨tokens, hrest, .equality hd⟩
  | level room r operators q hl heq ih =>
    rw [heq]
    exact sound_leftAssoc hl (forward_parse room q) ih
  | unary room ih₁ ih₂ =>
    intro s e s' h herr
    rw [Rule.parse.eq_7] at h
    rcases accept_cases [.bang, .minus] s with ⟨operator, rest, hs, hk, ha⟩ | ⟨-, ha⟩
    · rw [bind_of_ok ha] at h
      obtain ⟨operand, t, hoperand, h⟩ := bind_eq_ok_iff.1 h
      rw [bind_of_ok (newNode_apply t)] at h
      cases h
      obtain ⟨tokens, hrest, hd⟩ := ih₁ _ _ _ hoperand herr
      have hrest : rest = tokens ++ t.rest := hrest
      refine ⟨operator :: tokens, ?_, .unary hk hd⟩
      rw [hs, hrest]
      rfl
    · rw [bind_of_ok ha] at h
      obtain ⟨tokens, hrest, hd⟩ := ih₂ _ _ _ h herr
      exact ⟨tokens, hrest, .primary hd⟩
  | primary room ih =>
    intro s e s' h herr
    rcases parse_primary_cases room s with ⟨t, rest, v, hs, hv, heq⟩ | ⟨t, rest, f, -, -, -, heq⟩ |
      ⟨t, rest, hs, hk, heq⟩ | ⟨t, rest, hs, hk, heq⟩ | ⟨-, heq⟩
    · rw [heq] at h
      cases h
      exact ⟨[t], hs, .literal hv⟩
    · rw [heq] at h
      cases h
    · rw [heq] at h
      cases h
      exact ⟨[t], hs, .reference hk⟩
    · rw [heq] at h
      exact sound_closeGroup ih hs hk h herr
    · rw [heq] at h
      cases h
  | noRoom room r heq =>
    intro s e s' h
    rw [heq] at h
    cases h

/-! ### What derives is parsed -/

/-- The kinds of tokens with which an expression of a rule would go on. -/
def Rule.follow : Rule → List Kind
  | .primary | .unary => []
  | .factor => [.slash, .star]
  | .term => [.minus, .plus, .slash, .star]
  | .comparison => [.greater, .greaterEqual, .less, .lessEqual, .minus, .plus, .slash, .star]
  | .equality =>
    [.bangEqual, .equalEqual, .greater, .greaterEqual, .less, .lessEqual, .minus, .plus, .slash,
      .star]
  | .assignment | .expression =>
    [.equal, .bangEqual, .equalEqual, .greater, .greaterEqual, .less, .lessEqual, .minus, .plus,
      .slash, .star]

/-- A level goes on with its operators and with whatever its operands go on with. -/
theorem Rule.Level.follow_eq {r q : Rule} {operators : List Kind} (h : Rule.Level r operators q) :
    r.follow = operators ++ q.follow := by
  cases h <;> rfl

/-- No operator of a level goes on with its operands. -/
theorem Rule.Level.notMem_follow {r q : Rule} {operators : List Kind}
    (h : Rule.Level r operators q) : ∀ k ∈ operators, k ∉ q.follow := by
  cases h <;> decide

/-- The levels of groupings, prefix operators and assignments around each other in an expression. -/
def Tree.nesting : Tree → Nat
  | grouping e | unary _ e | assign _ e => e.nesting + 1
  | binary l _ r => max l.nesting r.nesting
  | _ => 0

/-- Operations on an expression nest no less than it does, and no less than their operands. -/
theorem nesting_le_foldl_applyTo (operations : List Operation) (left : Tree) :
    left.nesting ≤ (operations.foldl Operation.applyTo left).nesting ∧
      ∀ o ∈ operations, o.tree.nesting ≤ (operations.foldl Operation.applyTo left).nesting := by
  induction operations generalizing left with
  | nil => simp
  | cons o operations ih =>
    obtain ⟨hleft, hrest⟩ := ih (o.applyTo left)
    have hmax : (o.applyTo left).nesting = max left.nesting o.tree.nesting := rfl
    rw [hmax] at hleft
    refine ⟨Nat.le_trans (Nat.le_max_left _ _) hleft, List.forall_mem_cons.2 ⟨?_, hrest⟩⟩
    exact Nat.le_trans (Nat.le_max_right _ _) hleft

/-- The room in which a rule gets to a primary expression. -/
def Rule.cost : Rule → Nat
  | .primary => 1
  | .unary => 2
  | .factor => 4
  | .term => 6
  | .comparison => 8
  | .equality => 10
  | .assignment => 11
  | .expression => 12

theorem Rule.Level.cost_eq {r q : Rule} {operators : List Kind} (h : Rule.Level r operators q) :
    r.cost = q.cost + 2 := by
  cases h <;> rfl

/-- The room in which a rule reads an expression: enough for each level of nesting to go through all
rules. -/
def Rule.need (r : Rule) (tree : Tree) : Nat :=
  r.cost + 12 * tree.nesting

theorem Rule.need_expression (tree : Tree) :
    Rule.expression.need tree = 12 * (tree.nesting + 1) := by
  show 12 + 12 * tree.nesting = _
  omega

theorem Rule.cost_le (r : Rule) : 1 ≤ r.cost ∧ r.cost ≤ 12 := by
  cases r <;> decide

section

variable {room : Nat} {r q : Rule} {tree tree' : Tree}

/-- Room that is short for a rule is short for one that needs more. -/
theorem Rule.need_lt (hcost : q.cost + 1 ≤ r.cost) (h : room < q.need tree) :
    room + 1 < r.need tree := by
  unfold Rule.need at h ⊢
  omega

/-- Room that is short for an expression is short for one around it. -/
theorem Rule.need_lt_nested (htree : tree'.nesting = tree.nesting + 1)
    (h : room < q.need tree) : room + 1 < r.need tree' := by
  have hq := q.cost_le
  have hr := r.cost_le
  unfold Rule.need at h ⊢
  omega

theorem Rule.Level.need_lt {operators : List Kind} (hl : Rule.Level r operators q)
    (htree : tree.nesting ≤ tree'.nesting) (h : room < q.need tree) :
    room + 2 < r.need tree' := by
  have hcost := hl.cost_eq
  unfold Rule.need at h ⊢
  omega

end

/-- In the room to get to a primary expression there is some. -/
theorem Rule.lt_cost_of_noRoom {room : Nat} {r : Rule}
    (h : Rule.parse room r = throw .tooDeep) : room < r.cost := by
  refine Nat.lt_of_not_le fun hle => ?_
  obtain ⟨k, rfl⟩ := Nat.exists_eq_add_of_le' hle
  -- without tokens the rule gets there, and complains
  have hrun := congrFun h { rest := [], ending := Token.eof 1 }
  cases r <;> cases hrun

/-- Started before `tokens` and `rest`, a step reads the tokens to the tree, or runs out of room if
that is `short`. -/
def Reads (short : Prop) (m : Parse Expr) (tokens rest : List Token) (tree : Tree) : Prop :=
  ∀ s, s.rest = tokens ++ rest → Ensures m s
    (fun e s' => e.toTree = tree ∧ ∃ nodes, s' = { s with rest, nodes })
    (fun f _ => f = .tooDeep ∧ short)

theorem Reads.mono {short short' : Prop} {m : Parse Expr} {tokens rest : List Token} {tree : Tree}
    (h : Reads short m tokens rest tree) (hshort : short → short') :
    Reads short' m tokens rest tree :=
  fun s hs => (h s hs).mono (fun _ _ => id) fun _ _ hf => ⟨hf.1, hshort hf.2⟩

theorem reads_of_noRoom {room : Nat} {r : Rule} (h : Rule.parse room r = throw .tooDeep)
    (tokens rest : List Token) (tree : Tree) :
    Reads (room < r.need tree) (Rule.parse room r) tokens rest tree := by
  intro s _
  rw [h]
  exact Ensures.throw ⟨rfl, Nat.lt_add_right _ (Rule.lt_cost_of_noRoom h)⟩

/-- Operations do not go on with an operand before them. -/
theorem nextNotIn_operations {operators kinds : List Kind} {operations : List Operation}
    {rest : List Token} (hops : ∀ o ∈ operations, o.operator.kind ∈ operators)
    (hnot : ∀ k ∈ operators, k ∉ kinds) (hrest : NextNotIn kinds rest) :
    NextNotIn kinds (operations.flatMap Operation.tokens ++ rest) := by
  cases operations with
  | nil => exact hrest
  | cons o operations => exact nextNotIn_cons (hnot _ (hops o List.mem_cons_self))

/-- The loop over operators reads operations, if what follows goes on with none of them. -/
theorem reads_foldOperators {short : Prop} {operators kinds : List Kind} {operand : Parse Expr}
    {rest : List Token} (operations : List Operation)
    (hops : ∀ o ∈ operations, o.operator.kind ∈ operators) (hnot : ∀ k ∈ operators, k ∉ kinds)
    (hreads : ∀ o ∈ operations, ∀ rest', NextNotIn kinds rest' →
      Reads short operand o.operand rest' o.tree)
    (hrest : NextNotIn (operators ++ kinds) rest) {rounds : Nat} (left : Expr)
    (hrounds : operations.length ≤ rounds) :
    Reads short (foldOperators operators operand rounds left)
      (operations.flatMap Operation.tokens) rest
      (operations.foldl Operation.applyTo left.toTree) := by
  induction operations generalizing rounds left with
  | nil =>
    intro s hs
    have hs : s.rest = rest := hs
    have hstop : NextNotIn operators s.rest := hs ▸ hrest.mono (List.subset_append_left _ _)
    refine .of_ok (foldOperators_stop hstop operand rounds left) ⟨rfl, s.nodes, ?_⟩
    rw [← hs]
  | cons o operations ih =>
    intro s hs
    have hs : s.rest =
        o.operator :: (o.operand ++ (operations.flatMap Operation.tokens ++ rest)) := by
      rw [hs, List.flatMap_cons, Operation.tokens]
      simp only [List.cons_append, List.append_assoc]
    have hops' : ∀ o' ∈ operations, o'.operator.kind ∈ operators :=
      fun o' ho' => hops o' (List.mem_cons_of_mem o ho')
    cases rounds with
    | zero => exact absurd hrounds (by simp)
    | succ rounds =>
      have hk := hops o List.mem_cons_self
      -- the operand ends at the next operator, or where the operations end
      have hnext := nextNotIn_operations hops' hnot (hrest.mono (List.subset_append_right _ _))
      refine (Ensures.congr (foldOperators_go_on hs hk operand rounds left)).2 (Ensures.bind ?_)
      refine (hreads o List.mem_cons_self _ hnext { s with rest := _ } rfl).mono ?_ fun _ _ => id
      rintro right u ⟨htree, nodes, rfl⟩
      refine Ensures.bind (.of_ok (newNode_apply _) ?_)
      have ih := ih hops' (fun o' ho' => hreads o' (List.mem_cons_of_mem o ho'))
        (.binary (nodes + 1) left o.operator right) (Nat.le_of_succ_le_succ hrounds)
      refine (ih _ rfl).mono ?_ fun _ _ => id
      rintro e s' ⟨he, nodes', rfl⟩
      refine ⟨?_, nodes', rfl⟩
      rw [he, List.foldl_cons, Operation.applyTo, ← htree]
      rfl

/-- A level reads a first operand and operations on it. -/
theorem reads_leftAssoc {short : Prop} {operators kinds : List Kind} {operand : Parse Expr}
    {first rest : List Token} {left : Tree} (hfwd : Forward operand) (operations : List Operation)
    (hops : ∀ o ∈ operations, o.operator.kind ∈ operators) (hnot : ∀ k ∈ operators, k ∉ kinds)
    (hfirst : ∀ rest', NextNotIn kinds rest' → Reads short operand first rest' left)
    (hreads : ∀ o ∈ operations, ∀ rest', NextNotIn kinds rest' →
      Reads short operand o.operand rest' o.tree)
    (hrest : NextNotIn (operators ++ kinds) rest) :
    Reads short (leftAssoc operators operand) (first ++ operations.flatMap Operation.tokens) rest
      (operations.foldl Operation.applyTo left) := by
  intro s hs
  rw [List.append_assoc] at hs
  -- any bound does that is at least the number of tokens, and there are fewer operations
  have hbound : leftAssoc operators operand s = _ :=
    leftAssoc_apply hfwd (Nat.le_add_right s.rest.length operations.length)
  have hnext := nextNotIn_operations hops hnot (hrest.mono (List.subset_append_right _ _))
  refine (Ensures.congr hbound).2 (Ensures.bind ((hfirst _ hnext s hs).mono ?_ fun _ _ => id))
  rintro e t ⟨rfl, nodes, rfl⟩
  have hfold := reads_foldOperators operations hops hnot hreads hrest e
    (Nat.le_add_left operations.length s.rest.length)
  exact hfold _ rfl

theorem parse_zero (r : Rule) : Rule.parse 0 r = throw .tooDeep := by
  cases r <;> rfl

/-- A level of operators, by the room that there is. -/
theorem Rule.Level.parse_cases {r q : Rule} {operators : List Kind} (h : Rule.Level r operators q)
    (room : Nat) : Rule.parse room r = throw .tooDeep ∨
      ∃ room', room = room' + 2 ∧
        Rule.parse room r = leftAssoc operators (Rule.parse room' q) := by
  match room with
  | 0 => exact .inl (parse_zero r)
  | 1 => cases h <;> exact .inl rfl
  | room' + 2 => cases h <;> exact .inr ⟨room', rfl, rfl⟩

/-- A token that starts a primary expression is no prefix operator. -/
theorem nextNotIn_of_primaryStarts {tokens rest : List Token} {t : Token}
    (h : tokens = t :: rest) (hk : t.kind ∈ primaryStarts) (tail : List Token) :
    NextNotIn [.bang, .minus] (tokens ++ tail) := by
  have hnot : ∀ k ∈ primaryStarts, k ∉ [Kind.bang, .minus] := by decide
  rw [h]
  exact nextNotIn_cons (hnot _ hk)

/-- The outcome of a literal token. -/
theorem parse_primary_literal {t : Token} {v : Value} (h : LiteralToken t v) (room : Nat)
    {s : ParseState} {rest : List Token} (hs : s.rest = t :: rest) :
    Rule.parse (room + 1) .primary s =
      .ok (.literal (s.nodes + 1) v) { s with rest, nodes := s.nodes + 1 } := by
  have hacc := accept_of_mem hs (LiteralToken.starts h)
  unfold primaryStarts at hacc
  rw [Rule.parse.eq_8, bind_of_ok hacc]
  cases h with
  | isFalse hk | isTrue hk | isNil hk | string hk =>
    simp only [hk]
    rfl
  | number hk hv =>
    simp only [hk, hv]
    rfl

theorem parse_primary_reference {t : Token} (h : t.kind = .identifier) (room : Nat)
    {s : ParseState} {rest : List Token} (hs : s.rest = t :: rest) :
    Rule.parse (room + 1) .primary s =
      .ok (.reference (s.nodes + 1) t) { s with rest, nodes := s.nodes + 1 } := by
  have hacc := accept_of_mem hs (show t.kind ∈ primaryStarts by rw [h]; decide)
  unfold primaryStarts at hacc
  rw [Rule.parse.eq_8, bind_of_ok hacc]
  simp only [h]
  rfl

theorem parse_primary_group {t : Token} (h : t.kind = .leftParen) (room : Nat) {s : ParseState}
    {rest : List Token} (hs : s.rest = t :: rest) :
    Rule.parse (room + 1) .primary s =
      closeGroup (Rule.parse room .expression) { s with rest } := by
  have hacc := accept_of_mem hs (show t.kind ∈ primaryStarts by rw [h]; decide)
  unfold primaryStarts at hacc
  rw [Rule.parse.eq_8, bind_of_ok hacc]
  simp only [h]
  rfl

/-- A name is read by every rule below assignment. -/
theorem reads_name {name : Token} (hk : name.kind = .identifier) (room : Nat) (r : Rule)
    (hr : r ≠ .expression ∧ r ≠ .assignment) {rest : List Token}
    (hrest : NextNotIn r.follow rest) :
    Reads (room < r.cost) (Rule.parse room r) [name] rest (.reference (.token name)) := by
  induction room, r using Rule.parse_induction generalizing rest with
  | expression room _ => exact absurd rfl hr.1
  | assignment room _ _ => exact absurd rfl hr.2
  | level room r operators q hl heq ih =>
    have hq : q ≠ .expression ∧ q ≠ .assignment := by cases hl <;> decide
    rw [heq]
    rw [hl.follow_eq] at hrest
    refine reads_leftAssoc (forward_parse room q) [] (by simp) hl.notMem_follow
      (fun rest' h' => (ih hq h').mono fun hshort => ?_) (by simp) hrest
    rw [hl.cost_eq]
    exact Nat.add_lt_add_right hshort 2
  | unary room _ ih =>
    intro s hs
    have hnot : NextNotIn [.bang, .minus] s.rest :=
      hs ▸ nextNotIn_of_primaryStarts rfl (by rw [hk]; decide) rest
    have hprimary := (ih (by decide) hrest).mono (Nat.add_lt_add_right · 1)
    exact Ensures.bind (.of_ok (accept_of_notMem hnot) (hprimary s hs))
  | primary room _ =>
    intro s hs
    exact .of_ok (parse_primary_reference hk room hs) ⟨rfl, _, rfl⟩
  | noRoom room r heq => exact reads_of_noRoom heq _ _ _

/-- Only a variable has the tree of a variable. -/
theorem Expr.eq_reference_of_toTree {e : Expr} {name : Token}
    (h : e.toTree = .reference (.token name)) : ∃ id, e = .reference id name := by
  cases e with
  | reference id n =>
    cases h
    exact ⟨id, rfl⟩
  | _ => cases h

/-- Tokens that derive from a rule are parsed by it, unless the room runs out. -/
theorem parse_of_derives {r : Rule} {tokens : List Token} {tree : Tree} (h : Derives r tokens tree)
    (room : Nat) {rest : List Token} (hrest : NextNotIn r.follow rest) :
    Reads (room < r.need tree) (Rule.parse room r) tokens rest tree := by
  -- in each case the room that is short for a part is short for the whole
  induction h generalizing room rest with
  | expression _ ih =>
    cases room with
    | zero => exact reads_of_noRoom (parse_zero _) _ _ _
    | succ room => exact (ih room hrest).mono (Rule.need_lt (by decide))
  | @assign name equals tokens value hid heq _ ih =>
    cases room with
    | zero => exact reads_of_noRoom (parse_zero _) _ _ _
    | succ room =>
      intro s hs
      -- the parser reads the name as an equality, which ends at the equals sign
      have hnext : NextNotIn Rule.equality.follow (equals :: (tokens ++ rest)) :=
        nextNotIn_cons (by rw [heq]; decide)
      rw [parse_assignment_eq]
      refine Ensures.bind ((reads_name hid room .equality (by decide) hnext s hs).mono ?_
        fun _ _ hf => ⟨hf.1, Nat.lt_add_right _ (Nat.add_lt_add_right hf.2 1)⟩)
      rintro target t ⟨htarget, nodes, rfl⟩
      obtain ⟨n, rfl⟩ := Expr.eq_reference_of_toTree htarget
      refine Ensures.bind (.of_ok (accept_of_mem rfl (List.mem_singleton.2 heq)) ?_)
      refine Ensures.bind ((ih room hrest { s with rest := _, nodes } rfl).mono ?_
        fun _ _ hf => ⟨hf.1, Rule.need_lt_nested rfl hf.2⟩)
      rintro e t ⟨rfl, nodes', rfl⟩
      exact Ensures.bind (.of_ok (newNode_apply _) (Ensures.pure ⟨rfl, nodes' + 1, rfl⟩))
  | @equality tokens tree _ ih =>
    cases room with
    | zero => exact reads_of_noRoom (parse_zero _) _ _ _
    | succ room =>
      intro s hs
      rw [parse_assignment_eq]
      -- what follows is no equals sign, so the equality is all there is
      have hsub : Rule.equality.follow ⊆ Rule.assignment.follow := by decide
      refine Ensures.bind ((ih room (hrest.mono hsub) s hs).mono ?_
        fun _ _ hf => ⟨hf.1, Rule.need_lt (by decide) hf.2⟩)
      rintro e t ⟨he, nodes, rfl⟩
      have hnot : NextNotIn [.equal] rest := hrest.mono (by decide)
      exact Ensures.bind (.of_ok (accept_of_notMem hnot) (Ensures.pure ⟨he, nodes, rfl⟩))
  | @level r q operators first left operations hl _ hops _ ih₁ ih₂ =>
    rcases hl.parse_cases room with heq | ⟨room', rfl, heq⟩
    · exact reads_of_noRoom heq _ _ _
    · rw [heq]
      rw [hl.follow_eq] at hrest
      obtain ⟨hleft, hright⟩ := nesting_le_foldl_applyTo operations left
      exact reads_leftAssoc (forward_parse room' q) operations hops hl.notMem_follow
        (fun rest' h' => (ih₁ room' h').mono (hl.need_lt hleft))
        (fun o ho rest' h' => (ih₂ o ho room' h').mono (hl.need_lt (hright o ho))) hrest
  | @unary operator tokens tree hk _ ih =>
    cases room with
    | zero => exact reads_of_noRoom (parse_zero _) _ _ _
    | succ room =>
      intro s hs
      refine Ensures.bind (.of_ok (accept_of_mem hs hk) (Ensures.bind ?_))
      refine (ih room (fun _ _ => List.not_mem_nil) { s with rest := _ } rfl).mono ?_
        fun _ _ hf => ⟨hf.1, Rule.need_lt_nested rfl hf.2⟩
      rintro e t ⟨rfl, nodes, rfl⟩
      exact Ensures.bind (.of_ok (newNode_apply _) (Ensures.pure ⟨rfl, nodes + 1, rfl⟩))
  | @primary tokens tree hd ih =>
    cases room with
    | zero => exact reads_of_noRoom (parse_zero _) _ _ _
    | succ room =>
      intro s hs
      -- a primary expression does not start with a prefix operator
      obtain ⟨t, after, htokens, hk⟩ := hd.starts_primary
      have hnot : NextNotIn [.bang, .minus] s.rest :=
        hs ▸ nextNotIn_of_primaryStarts htokens hk rest
      refine Ensures.bind (.of_ok (accept_of_notMem hnot) ?_)
      exact (ih room hrest).mono (Rule.need_lt (by decide)) s hs
  | literal hv =>
    cases room with
    | zero => exact reads_of_noRoom (parse_zero _) _ _ _
    | succ room =>
      intro s hs
      exact .of_ok (parse_primary_literal hv room hs) ⟨rfl, _, rfl⟩
  | reference hk =>
    cases room with
    | zero => exact reads_of_noRoom (parse_zero _) _ _ _
    | succ room =>
      intro s hs
      exact .of_ok (parse_primary_reference hk room hs) ⟨rfl, _, rfl⟩
  | @grouping opening closing tokens tree hk _ hck ih =>
    cases room with
    | zero => exact reads_of_noRoom (parse_zero _) _ _ _
    | succ room =>
      intro s hs
      have hs : s.rest = opening :: (tokens ++ closing :: rest) := by
        rw [hs]
        simp
      refine (Ensures.congr (parse_primary_group hk room hs)).2 (Ensures.bind ?_)
      have hnext : NextNotIn Rule.expression.follow (closing :: rest) :=
        nextNotIn_cons (by rw [hck]; decide)
      refine (ih room hnext { s with rest := _ } rfl).mono ?_
        fun _ _ hf => ⟨hf.1, Rule.need_lt_nested rfl hf.2⟩
      rintro e t ⟨rfl, nodes, rfl⟩
      refine Ensures.bind (.of_ok (expect_of_kind rfl hck _) ?_)
      exact Ensures.bind (.of_ok (newNode_apply _) (Ensures.pure ⟨rfl, nodes + 1, rfl⟩))

/-! ### Statements -/

/-- A statement that is parsed without a complaint is one of the grammar. -/
theorem declaration_of_statementRun {room : Nat} {s s' : ParseState} {stmt : Stmt}
    (h : StatementRun room s stmt s') (herr : s'.errors = s.errors) :
    ∃ tokens, s.rest = tokens ++ s'.rest ∧ Declaration tokens stmt.toTree := by
  cases h with
  | var hs hk hid hsk => exact ⟨_, hs, .var hk hid hsk⟩
  | @varInit kw name equals semi rest rest' e t hs hk hid heq he ht hsk =>
    obtain ⟨tokens, hrest, hd⟩ := derives_of_parse room .expression _ _ _ he herr
    have hrest : rest = tokens ++ t.rest := hrest
    refine ⟨kw :: name :: equals :: tokens ++ [semi], ?_, .varInit hk hid heq hd hsk⟩
    rw [hs, hrest, ht]
    simp
  | @print kw semi rest rest' e t hs hk he ht hsk =>
    obtain ⟨tokens, hrest, hd⟩ := derives_of_parse room .expression _ _ _ he herr
    have hrest : rest = tokens ++ t.rest := hrest
    refine ⟨kw :: tokens ++ [semi], ?_, .print hk hd hsk⟩
    rw [hs, hrest, ht]
    simp
  | @expression semi rest' e t _ _ he ht hsk =>
    obtain ⟨tokens, hrest, hd⟩ := derives_of_parse room .expression _ _ _ he herr
    refine ⟨tokens ++ [semi], ?_, .expression hd hsk⟩
    rw [hrest, ht]
    simp

/-- An expression with its semicolon, and the node of the statement. -/
theorem reads_finish {room : Nat} {tokens rest : List Token} {tree : Tree} {semi : Token}
    (h : Derives .expression tokens tree) (hk : semi.kind = .semicolon) {s : ParseState}
    (hs : s.rest = tokens ++ semi :: rest) (c : Complaint) (node : Nat → Expr → Stmt) :
    Ensures (do
        let e ← Rule.parse room .expression
        let _ ← expect .semicolon c
        return node (← newNode) e : Parse Stmt) s
      (fun stmt s' => ∃ n e, stmt = node n e ∧ e.toTree = tree ∧ s' = { s with rest, nodes := n })
      (fun f _ => f = .tooDeep) := by
  have hnext : NextNotIn Rule.expression.follow (semi :: rest) :=
    nextNotIn_cons (by rw [hk]; decide)
  refine Ensures.bind ((parse_of_derives h room hnext s hs).mono ?_ fun _ _ hf => hf.1)
  rintro e t ⟨he, nodes, rfl⟩
  refine Ensures.bind (.of_ok (expect_of_kind rfl hk c) ?_)
  exact Ensures.bind (.of_ok (newNode_apply _) (Ensures.pure ⟨nodes + 1, e, rfl, he, rfl⟩))

/-- The first token of an expression is no keyword of a statement. -/
theorem nextNotIn_of_derives {tokens : List Token} {tree : Tree}
    (h : Derives .expression tokens tree) (rest : List Token) :
    NextNotIn [.kwVar, .kwPrint] (tokens ++ rest) := by
  obtain ⟨t, after, rfl, hk⟩ := h.starts
  have hnot : ∀ k ∈ expressionStarts, k ∉ [Kind.kwVar, .kwPrint] := by decide
  exact nextNotIn_cons (hnot _ hk)

/-- A statement of the grammar is parsed, unless the room runs out. -/
theorem statement_of_declaration {tokens : List Token} {tree : Tree} (h : Declaration tokens tree)
    (room : Nat) {s : ParseState} {rest : List Token} (hs : s.rest = tokens ++ rest) :
    Ensures (statement room) s
      (fun stmt s' => stmt.toTree = tree ∧ ∃ nodes, s' = { s with rest, nodes })
      (fun f _ => f = .tooDeep) := by
  cases h with
  | @var kw name semi hk hid hsk =>
    have hequal : NextNotIn [.equal] (semi :: rest) :=
      nextNotIn_cons (by rw [hsk]; decide)
    refine Ensures.bind (.of_ok (accept_of_mem hs (List.mem_singleton.2 hk)) ?_)
    refine Ensures.bind (.of_ok (expect_of_kind rfl hid _) ?_)
    refine Ensures.bind (.of_ok (accept_of_notMem hequal) (Ensures.bind (Ensures.pure ?_)))
    refine Ensures.bind (.of_ok (expect_of_kind rfl hsk _) ?_)
    exact Ensures.bind (.of_ok (newNode_apply _) (Ensures.pure ⟨rfl, s.nodes + 1, rfl⟩))
  | @varInit kw name equals semi tokens tree hk hid heq hd hsk =>
    have hs : s.rest = kw :: name :: equals :: (tokens ++ semi :: rest) := by
      rw [hs]
      simp
    have hnext : NextNotIn Rule.expression.follow (semi :: rest) :=
      nextNotIn_cons (by rw [hsk]; decide)
    refine Ensures.bind (.of_ok (accept_of_mem hs (List.mem_singleton.2 hk)) ?_)
    refine Ensures.bind (.of_ok (expect_of_kind rfl hid _) ?_)
    refine Ensures.bind (.of_ok (accept_of_mem rfl (List.mem_singleton.2 heq)) ?_)
    refine Ensures.bind (Ensures.map ?_)
    refine (parse_of_derives hd room hnext { s with rest := _ } rfl).mono ?_ fun _ _ hf => hf.1
    rintro e t ⟨rfl, nodes, rfl⟩
    refine Ensures.bind (.of_ok (expect_of_kind rfl hsk _) ?_)
    exact Ensures.bind (.of_ok (newNode_apply _) (Ensures.pure ⟨rfl, nodes + 1, rfl⟩))
  | @print kw semi tokens tree hk hd hsk =>
    have hs : s.rest = kw :: (tokens ++ semi :: rest) := by
      rw [hs]
      simp
    have hvar : NextNotIn [.kwVar] s.rest := hs ▸ nextNotIn_cons (by rw [hk]; decide)
    refine Ensures.bind (.of_ok (accept_of_notMem hvar) ?_)
    refine Ensures.bind (.of_ok (accept_of_mem hs (List.mem_singleton.2 hk)) ?_)
    refine (reads_finish hd hsk rfl .expectValueEnd .print).mono ?_ fun _ _ => id
    rintro stmt s' ⟨n, e, rfl, rfl, rfl⟩
    exact ⟨rfl, n, rfl⟩
  | @expression semi tokens tree hd hsk =>
    have hs : s.rest = tokens ++ semi :: rest := by
      rw [hs]
      simp
    have hnot := nextNotIn_of_derives hd (semi :: rest)
    rw [← hs] at hnot
    refine Ensures.bind (.of_ok (accept_of_notMem (hnot.mono (by decide))) ?_)
    refine Ensures.bind (.of_ok (accept_of_notMem (hnot.mono (by decide))) ?_)
    refine (reads_finish hd hsk hs .expectStatementEnd .expression).mono ?_ fun _ _ => id
    rintro stmt s' ⟨n, e, rfl, rfl, rfl⟩
    exact ⟨rfl, n, rfl⟩

/-! ### Programs -/

/-- A program that is parsed without a complaint is one of the grammar. -/
theorem program_of_run {room : Nat} {s s' : ParseState} {stmts : List Stmt}
    (h : ProgramRun room s stmts s') (herr : s'.errors = s.errors) :
    Grammar.Program s.rest (stmts.map Stmt.toTree) := by
  induction h with
  | done hnil =>
    rw [hnil]
    exact .nil
  | @next s t s' stmt? stmts hne hd hrun ih =>
    have ht := (extends_of_declaration hd hne).1.errors_eq hrun.extends_of_run herr
    -- a declaration that failed would have left a complaint
    obtain ⟨stmt, rfl, hs⟩ := statement_of_clean hd ht
    obtain ⟨tokens, hrest, hdecl⟩ := declaration_of_statementRun (statementRun_of_ok hs) ht
    rw [hrest]
    exact .cons hdecl (ih (herr.trans ht.symm))

/-- No complaint is about nesting. -/
def NotTooDeep (errors : List Diagnostic) : Prop :=
  ∀ d ∈ errors, d.complaint ≠ .nestedTooDeeply

/-- A program of the grammar is parsed without a complaint, unless the room runs out. -/
theorem run_of_program {tokens : List Token} {trees : List Tree} (h : Grammar.Program tokens trees)
    {room : Nat} {s s' : ParseState} {stmts : List Stmt} (hrun : ProgramRun room s stmts s')
    (hs : s.rest = tokens) (hnest : NotTooDeep s'.errors) :
    s'.errors = s.errors ∧ stmts.map Stmt.toTree = trees := by
  induction h generalizing s stmts with
  | nil =>
    cases hrun with
    | done => exact ⟨rfl, rfl⟩
    | next hne => exact absurd hs hne
  | @cons tokens rest tree trees hdecl _ ih =>
    have hstmt := statement_of_declaration hdecl room hs
    cases hrun with
    | done hnil =>
      -- the run is not over, for a declaration has tokens
      obtain ⟨semi, hsemi, -⟩ := hdecl.getLast?
      rw [hnil] at hs
      rw [(List.append_eq_nil_iff.1 hs.symm).1] at hsemi
      cases hsemi
    | @next _ t _ stmt? stmts hne hd hrun =>
      cases hst : statement room s with
      | ok stmt u =>
        rw [declaration_of_ok hst] at hd
        cases hd
        obtain ⟨rfl, nodes, rfl⟩ := hstmt.ok hst
        obtain ⟨herr, htrees⟩ := ih hrun rfl
        exact ⟨herr, congrArg (stmt.toTree :: ·) htrees⟩
      | error f u =>
        obtain rfl : f = .tooDeep := hstmt.error hst
        -- the complaint about nesting stays recorded to the end
        rw [declaration_of_error hst] at hd
        cases hd
        have hmem := hrun.extends_of_run.errors.subset (List.mem_append_right _ List.mem_cons_self)
        exact absurd rfl (hnest _ hmem)

/-! ### Expressions that stand alone -/

/-- The complaints about an expression that stands alone, once it is parsed: tokens behind it are
one more. -/
def standaloneErrors (s : ParseState) : List Diagnostic :=
  match s.rest with
  | [] => s.errors
  | t :: _ => s.errors ++ [.grammatical t .expectExpressionEnd]

theorem standaloneErrors_eq_nil_iff {s : ParseState} :
    standaloneErrors s = [] ↔ s.rest = [] ∧ s.errors = [] := by
  unfold standaloneErrors
  cases s.rest <;> simp

/-- An expression that is parsed is the result, unless there is a complaint: then the first one
is. -/
theorem standalone_of_ok {room : Nat} {s t : ParseState} {e : Expr}
    (h : Rule.parse room .expression s = .ok e t) :
    standalone room s = match standaloneErrors t with
      | d :: _ => .error (.diagnostic d) { t with errors := standaloneErrors t }
      | [] => .ok e t := by
  unfold standalone
  rw [bind_of_ok (tryCatch_of_ok h)]
  obtain ⟨rest, ending, nodes, errors⟩ := t
  cases rest with
  | nil => cases errors <;> rfl
  | cons t rest => cases errors <;> rfl

/-- Want of room is reported as a complaint about nesting. -/
theorem standalone_of_tooDeep {room : Nat} {s t : ParseState}
    (h : Rule.parse room .expression s = .error .tooDeep t) : standalone room s =
      .error (.diagnostic (.grammatical (t.rest.headD t.ending) .nestedTooDeeply)) t := by
  unfold standalone
  refine bind_of_error ?_
  rw [tryCatch_of_error h]
  rfl

/-- A fault other than want of room is the outcome. -/
theorem standalone_of_error {room : Nat} {s t : ParseState} {f : Fault}
    (h : Rule.parse room .expression s = .error f t) (hf : f ≠ .tooDeep) :
    standalone room s = .error f t := by
  unfold standalone
  refine bind_of_error ?_
  rw [tryCatch_of_error h]
  cases f with
  | tooDeep => exact absurd rfl hf
  | _ => rfl

/-- An expression that stands alone is one that is parsed up to the end without a complaint. -/
theorem standalone_eq_ok_iff {room : Nat} {s s' : ParseState} {e : Expr} :
    standalone room s = .ok e s' ↔
      Rule.parse room .expression s = .ok e s' ∧ s'.rest = [] ∧ s'.errors = [] := by
  cases hp : Rule.parse room .expression s with
  | error f t =>
    by_cases hf : f = .tooDeep
    · rw [standalone_of_tooDeep (hf ▸ hp)]
      simp
    · rw [standalone_of_error hp hf]
      simp
  | ok e' t =>
    rw [standalone_of_ok hp]
    constructor
    · intro h
      split at h
      · cases h
      · next hnil =>
        cases h
        exact ⟨rfl, standaloneErrors_eq_nil_iff.1 hnil⟩
    · rintro ⟨heq, hnil⟩
      cases heq
      rw [standaloneErrors_eq_nil_iff.2 hnil]

theorem Standalone.result_ofTokens (tokens : List Token) :
    (Standalone.ofTokens tokens).result =
      match standalone nestingRoom (ParseState.ofTokens tokens) with
      | .ok e _ => .ok e
      | .error f _ => .error f := by
  unfold Standalone.ofTokens
  dsimp only
  cases standalone nestingRoom (ParseState.ofTokens tokens) <;> rfl

/-- The tokens before the first end marker of an accepted list are a phrase with the result's
tree. -/
theorem Standalone.derives_of_result {tokens : List Token} {e : Expr}
    (h : (Standalone.ofTokens tokens).result = .ok e) :
    Derives .expression (ParseState.ofTokens tokens).rest e.toTree := by
  rw [Standalone.result_ofTokens] at h
  cases hst : standalone nestingRoom (ParseState.ofTokens tokens) with
  | error f s' =>
    rw [hst] at h
    cases h
  | ok e' s' =>
    rw [hst] at h
    cases h
    obtain ⟨hp, hrest, herr⟩ := standalone_eq_ok_iff.1 hst
    obtain ⟨used, hused, hd⟩ := derives_of_parse nestingRoom .expression _ _ _ hp herr
    rw [hrest, List.append_nil] at hused
    rwa [hused]

/-- If they are a phrase then the list is accepted with its tree, unless the room runs out. -/
theorem Standalone.result_of_derives {tokens : List Token} {tree : Tree}
    (hd : Derives .expression (ParseState.ofTokens tokens).rest tree) :
    (∃ e, (Standalone.ofTokens tokens).result = .ok e ∧ e.toTree = tree) ∨
      nestingRoom < Rule.expression.need tree ∧ ∃ t, (Standalone.ofTokens tokens).result =
        .error (.diagnostic (.grammatical t .nestedTooDeeply)) := by
  have hreads := parse_of_derives hd nestingRoom (nextNotIn_nil _) (ParseState.ofTokens tokens)
    (List.append_nil _).symm
  rw [Standalone.result_ofTokens]
  cases hp : Rule.parse nestingRoom .expression (ParseState.ofTokens tokens) with
  | ok e s' =>
    obtain ⟨he, nodes, rfl⟩ := hreads.ok hp
    rw [standalone_eq_ok_iff.2 ⟨hp, rfl, rfl⟩]
    exact .inl ⟨e, rfl, he⟩
  | error f s' =>
    obtain ⟨rfl, hshort⟩ := hreads.error hp
    rw [standalone_of_tooDeep hp]
    exact .inr ⟨hshort, _, rfl⟩

/-- An expression that stands alone is the grammar's, unless the room runs out. -/
theorem Standalone.result_eq_ok_iff {tokens : List Token} {ending : Token}
    (h : ScannerShaped tokens) (hend : ending.kind = .eof)
    (hnest : ∀ t, (Standalone.ofTokens (tokens ++ [ending])).result ≠
      .error (.diagnostic (.grammatical t .nestedTooDeeply))) (tree : Tree) :
    (∃ e, (Standalone.ofTokens (tokens ++ [ending])).result = .ok e ∧ e.toTree = tree) ↔
      Derives .expression tokens tree := by
  have hrest : (ParseState.ofTokens (tokens ++ [ending])).rest = tokens := by
    rw [ParseState.ofTokens_append h.noEnding hend]
  constructor
  · rintro ⟨e, hres, rfl⟩
    rw [← hrest]
    exact Standalone.derives_of_result hres
  · intro hd
    rw [← hrest] at hd
    rcases Standalone.result_of_derives hd with haccepted | ⟨-, t, ht⟩
    · exact haccepted
    · exact absurd ht (hnest t)

/-! ### The main statement -/

/-- On tokens as the scanner makes them, and where the room does not run out, the parser complains
about nothing exactly if the grammar derives the tokens. The statements that it then makes are the
trees of every derivation, so that there is one tree only. The same holds of an expression that
stands alone. -/
theorem ofTokens_recognizes_grammar {tokens : List Token} {ending : Token}
    (h : ScannerShaped tokens) (hend : ending.kind = .eof) :
    (∃ program, Program.ofTokens (tokens ++ [ending]) = .ok program ∧
      (NotTooDeep program.errors →
        (program.errors = [] ↔ ∃ trees, Grammar.Program tokens trees) ∧
        ∀ trees, Grammar.Program tokens trees →
          program.statements.map Stmt.toTree = trees)) ∧
    ((∀ t, (Standalone.ofTokens (tokens ++ [ending])).result ≠
        .error (.diagnostic (.grammatical t .nestedTooDeeply))) →
      ∀ tree, (∃ e, (Standalone.ofTokens (tokens ++ [ending])).result = .ok e ∧ e.toTree = tree) ↔
        Derives .expression tokens tree) := by
  refine ⟨?_, Standalone.result_eq_ok_iff h hend⟩
  obtain ⟨stmts, s', hrun, hprogram⟩ := Program.exists_run h hend
  refine ⟨_, hprogram, fun hnest => ⟨⟨fun herr => ?_, ?_⟩, ?_⟩⟩
  · exact ⟨_, program_of_run hrun herr⟩
  · rintro ⟨trees, hp⟩
    exact (run_of_program hp hrun rfl hnest).1
  · intro trees hp
    exact (run_of_program hp hrun rfl hnest).2

/-- The tokens of `a = -(1 < b);`. -/
def assignmentTokens : List Token :=
  [⟨.identifier, "a", none, 1⟩, ⟨.equal, "=", none, 1⟩, ⟨.minus, "-", none, 1⟩,
    ⟨.leftParen, "(", none, 1⟩, ⟨.number, "1", some "1", 1⟩, ⟨.less, "<", none, 1⟩,
    ⟨.identifier, "b", none, 1⟩, ⟨.rightParen, ")", none, 1⟩, ⟨.semicolon, ";", none, 1⟩]

theorem scannerShaped_assignmentTokens : ScannerShaped assignmentTokens := by
  refine ⟨by decide, ?_⟩
  intro t ht hk
  have hmem : t ∈ assignmentTokens.filter (fun t => t.kind = .number) :=
    List.mem_filter.2 ⟨ht, decide_eq_true hk⟩
  have hnumbers : assignmentTokens.filter (fun t => t.kind = .number) =
      [⟨.number, "1", some "1", 1⟩] := by decide
  rw [hnumbers, List.mem_singleton] at hmem
  subst hmem
  exact ⟨_, rfl⟩

/-- An assignment with its semicolon is a program, but no expression that stands alone. -/
theorem ofTokens_recognizes_grammar_assignmentTokens :
    (∃ program, Program.ofTokens (assignmentTokens ++ [Token.eof 1]) = .ok program ∧
      program.errors = [] ∧
      Grammar.Program assignmentTokens (program.statements.map Stmt.toTree)) ∧
    ∀ tree, ¬ Derives .expression assignmentTokens tree := by
  obtain ⟨⟨program, hprogram, hiff⟩, halone⟩ :=
    ofTokens_recognizes_grammar scannerShaped_assignmentTokens (rfl : (Token.eof 1).kind = .eof)
  have hresult : (Standalone.ofTokens (assignmentTokens ++ [Token.eof 1])).result =
      .error (.diagnostic (.grammatical ⟨.semicolon, ";", none, 1⟩ .expectExpressionEnd)) := rfl
  rw [hresult] at halone
  have hparse : ∃ stmts n m, Program.ofTokens (assignmentTokens ++ [Token.eof 1]) =
      .ok ⟨stmts, [], n, m⟩ := ⟨_, _, _, rfl⟩
  obtain ⟨stmts, n, m, hparse⟩ := hparse
  rw [hprogram] at hparse
  cases hparse
  obtain ⟨hderives, htrees⟩ := hiff (fun d hd => by cases hd)
  obtain ⟨trees, hp⟩ := hderives.1 rfl
  have heq := htrees trees hp
  rw [← heq] at hp
  refine ⟨⟨_, hprogram, rfl, hp⟩, fun tree hd => ?_⟩
  obtain ⟨e, he, -⟩ := (halone (fun t h => nomatch h) tree).2 hd
  cases he

end LoxTree
