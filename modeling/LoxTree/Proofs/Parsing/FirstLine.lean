import LoxTree.Proofs.Parsing.Recognition
import LoxTree.Proofs.Parsing.Trees
import LoxTree.Proofs.Scanning.Places
import Mathlib.Data.List.Basic
import Mathlib.Data.List.Flatten

/-!
# The first line of a tree

The line of a statement is that of the first token in it. It is found by a loop over a stack, so
that no tree is nested too deeply for it, and the loop meets tokens in the order in which a
recursive walk over the fields meets them. In the tree of a parsed statement the order of the fields
is the order of the tokens in the text, so that the first line is also the smallest.

* `Tree.WalksTo`: the loop over the stack, turn by turn, with values in the place of trees wherever
  they stand. It ends for every stack (`Tree.exists_walksTo`), with the line of the first token that
  a recursive walk meets (`Tree.walksTo_iff`).
* `Tree.firstLine_eq`: that is the line that `Tree.firstLine` finds.
* `Grammar.Declaration.tokens_sublist`: the tokens in the tree of a statement are some of the tokens
  of the statement, in their order.
* `firstLine_first_and_least`: the first line of any tree, and of the statements of a source text.
-/

namespace LoxTree

namespace Tree

/-! ### Tokens of nodes -/

section

variable {τ : Type} (t u v : Tree τ)

@[simp] theorem tokens_missing : (missing : Tree τ).tokens = [] :=
  tokens_eq_flatMap nofun

@[simp] theorem tokens_literal (value : Value) : (literal value : Tree τ).tokens = [] :=
  tokens_eq_flatMap nofun

@[simp] theorem tokens_reference : (reference t).tokens = t.tokens := by
  simp [tokens_eq_flatMap, parts, fields]

@[simp] theorem tokens_grouping : (grouping t).tokens = t.tokens := by
  simp [tokens_eq_flatMap, parts, fields]

@[simp] theorem tokens_unary : (unary t u).tokens = t.tokens ++ u.tokens := by
  simp [tokens_eq_flatMap, parts, fields]

@[simp] theorem tokens_binary : (binary t u v).tokens = t.tokens ++ (u.tokens ++ v.tokens) := by
  simp [tokens_eq_flatMap, parts, fields]

@[simp] theorem tokens_assign : (assign t u).tokens = t.tokens ++ u.tokens := by
  simp [tokens_eq_flatMap, parts, fields]

@[simp] theorem tokens_expressionStmt : (expressionStmt t).tokens = t.tokens := by
  simp [tokens_eq_flatMap, parts, fields]

@[simp] theorem tokens_printStmt : (printStmt t).tokens = t.tokens := by
  simp [tokens_eq_flatMap, parts, fields]

@[simp] theorem tokens_varDecl : (varDecl t u).tokens = t.tokens ++ u.tokens := by
  simp [tokens_eq_flatMap, parts, fields]

end

/-! ### The walk over a tree -/

/-- What comes onto the stack for a tree, in the order of the fields. The value of a literal is in
a field of it; a value that is a list is opened as a list of trees is, and any other holds
nothing. -/
def held : Tree (Token ⊕ Value) → List (Tree (Token ⊕ Value))
  | literal v => [token (.inr v)]
  | token (.inr (.list items)) => items.map fun v => token (.inr v)
  | t => t.parts

/-- The loop over a stack, with the next tree at its end, gives the line. A value `v` that stands in
the place of a tree is `token (.inr v)`. -/
inductive WalksTo : List (Tree (Token ⊕ Value)) → Int → Prop
  /-- Nothing is left. -/
  | finished : WalksTo [] 0
  /-- The next tree is a token. -/
  | found (stack : List (Tree (Token ⊕ Value))) (tok : Token) :
    WalksTo (stack ++ [token (.inl tok)]) tok.line
  /-- The next tree is none, and what it holds is put on the stack, the last of it first. -/
  | opened {stack : List (Tree (Token ⊕ Value))} {t : Tree (Token ⊕ Value)} {line : Int} :
    (∀ tok, t ≠ token (.inl tok)) → WalksTo (stack ++ (held t).reverse) line →
    WalksTo (stack ++ [t]) line

theorem held_cases (t : Tree (Token ⊕ Value)) :
    (∃ tok, t = token (.inl tok)) ∨ (∃ v, t = token (.inr v)) ∨ (∃ v, t = literal v) ∨
      (∀ x, t ≠ token x) ∧ held t = t.parts := by
  cases t with
  | token x =>
    rcases x with tok | v
    · exact .inl ⟨tok, rfl⟩
    · exact .inr (.inl ⟨v, rfl⟩)
  | literal v => exact .inr (.inr (.inl ⟨v, rfl⟩))
  | _ => exact .inr (.inr (.inr ⟨by simp, rfl⟩))

/-- The loop passes over values that it passes over one by one. -/
theorem WalksTo.pass_all {stack : List (Tree (Token ⊕ Value))} {line : Int} {values : List Value}
    (hpass : ∀ v ∈ values, ∀ stack, WalksTo stack line → WalksTo (stack ++ [token (.inr v)]) line)
    (h : WalksTo stack line) : WalksTo (stack ++ values.map fun v => token (.inr v)) line := by
  induction values generalizing stack with
  | nil => rwa [List.map_nil, List.append_nil]
  | cons v rest ih =>
    have hv := hpass v List.mem_cons_self stack h
    have hrest := ih (fun w hw => hpass w (List.mem_cons_of_mem v hw)) hv
    rwa [List.append_assoc, List.singleton_append] at hrest

/-- The loop passes over a value, since no token is in it. -/
theorem WalksTo.pass {stack : List (Tree (Token ⊕ Value))} {line : Int} (v : Value)
    (h : WalksTo stack line) : WalksTo (stack ++ [token (.inr v)]) line := by
  refine .opened (by simp) ?_
  cases v with
  | list items =>
    rw [held, ← List.map_reverse]
    exact h.pass_all fun w hw stack hstack => pass w hstack
  | _ => simpa [held, parts, fields] using h
termination_by sizeOf v
decreasing_by
  have := List.sizeOf_lt_of_mem (List.mem_reverse.1 hw)
  simp only [Value.list.sizeOf_spec]
  omega

theorem totalSize_reverse {τ : Type} [SizeOf τ] (trees : List (Tree τ)) :
    totalSize trees.reverse = totalSize trees := by
  induction trees with
  | nil => rfl
  | cons t rest ih =>
    rw [List.reverse_cons, totalSize_append, ih, totalSize, totalSize, totalSize]
    omega

/-- The loop ends for every stack. -/
theorem exists_walksTo (stack : List (Tree (Token ⊕ Value))) : ∃ line, WalksTo stack line := by
  induction hsize : totalSize stack using Nat.strong_induction_on generalizing stack with
  | _ size ih =>
    rcases List.eq_nil_or_concat' stack with rfl | ⟨stack, t, rfl⟩
    · exact ⟨0, .finished⟩
    · rw [totalSize_append, totalSize, totalSize] at hsize
      have hpos : 0 < sizeOf t := Nat.zero_lt_of_lt (totalSize_parts_lt t)
      obtain ⟨line, hstack⟩ := ih (totalSize stack) (by omega) stack rfl
      rcases held_cases t with ⟨tok, rfl⟩ | ⟨v, rfl⟩ | ⟨v, rfl⟩ | ⟨hne, hheld⟩
      · exact ⟨_, .found stack tok⟩
      · exact ⟨line, hstack.pass v⟩
      · exact ⟨line, .opened (by simp) (hstack.pass v)⟩
      · have hparts := totalSize_parts_lt t
        have hless : totalSize (stack ++ t.parts.reverse) < size := by
          rw [totalSize_append, totalSize_reverse]
          omega
        obtain ⟨line, h⟩ := ih _ hless _ rfl
        exact ⟨line, .opened (fun tok => hne (.inl tok)) (hheld ▸ h)⟩

/-- The tokens on a stack, in the order in which a recursive walk over the fields meets them. -/
def met (stack : List (Tree (Token ⊕ Value))) : List Token :=
  (stack.reverse.flatMap tokens).filterMap Sum.getLeft?

theorem met_append (stack others : List (Tree (Token ⊕ Value))) :
    met (stack ++ others) = met others ++ met stack := by
  simp [met]

theorem met_values (values : List Value) : met (values.map fun v => token (.inr v)) = [] := by
  induction values with
  | nil => rfl
  | cons v rest ih =>
    rw [List.map_cons, ← List.singleton_append, met_append, ih]
    simp [met, tokens_token]

/-- Opening a tree keeps the tokens that are met. -/
theorem met_held {t : Tree (Token ⊕ Value)} (ht : ∀ tok, t ≠ token (.inl tok)) :
    met (held t).reverse = met [t] := by
  rcases held_cases t with ⟨tok, rfl⟩ | ⟨v, rfl⟩ | ⟨v, rfl⟩ | ⟨hne, hheld⟩
  · exact absurd rfl (ht tok)
  · have hnone : met [token (.inr v)] = [] := met_values [v]
    rw [hnone]
    cases v with
    | list items =>
      rw [held, ← List.map_reverse]
      exact met_values items.reverse
    | _ => rfl
  · have hnone : met [literal v] = [] := by simp [met]
    rw [hnone]
    exact met_values [v]
  · rw [hheld, met, met, List.reverse_reverse, List.reverse_singleton, List.flatMap_singleton,
      tokens_eq_flatMap hne]

/-- Every turn keeps the line of the first token that is met. -/
theorem WalksTo.line_eq {stack : List (Tree (Token ⊕ Value))} {line : Int}
    (h : WalksTo stack line) : line = ((met stack).head?.map Token.line).getD 0 := by
  induction h with
  | finished => rfl
  | found stack tok => simp [met, tokens_token]
  | @opened stack t line ht _ ih =>
    rw [met_append, met_held ht, ← met_append] at ih
    exact ih

/-- In a tree without values the tokens that are met are those that `tokens` lists. -/
theorem met_map_inl (t : Tree) : met [t.map .inl] = t.tokens := by
  rw [met, List.reverse_singleton, List.flatMap_singleton, tokens_map, List.filterMap_map]
  exact List.filterMap_some

/-- The loop ends for every stack, with the line of the first token that is met. -/
theorem walksTo_iff {stack : List (Tree (Token ⊕ Value))} {line : Int} :
    WalksTo stack line ↔ line = ((met stack).head?.map Token.line).getD 0 := by
  refine ⟨WalksTo.line_eq, ?_⟩
  rintro rfl
  obtain ⟨line, h⟩ := exists_walksTo stack
  exact h.line_eq ▸ h

/-! ### The recursive walk -/

/-- The loop finds the first of the tokens that the recursive walk meets. -/
theorem firstLineOf_eq (trees : List Tree) :
    firstLineOf trees = ((trees.flatMap tokens).head?.map Token.line).getD 0 := by
  induction trees using firstLineOf.induct with
  | case1 => exact firstLineOf.eq_1
  | case2 tok rest =>
    rw [firstLineOf.eq_2, List.flatMap_cons, tokens_token]
    rfl
  | case3 t rest ht ih =>
    rw [firstLineOf.eq_3 t rest ht, ih, List.flatMap_append, List.flatMap_cons,
      tokens_eq_flatMap ht]

theorem firstLine_eq (t : Tree) : t.firstLine = (t.tokens.head?.map Token.line).getD 0 := by
  rw [firstLine, firstLineOf_eq, List.flatMap_singleton]

end Tree

/-! ### Tokens of statements -/

namespace Grammar

theorem tokens_foldl_applyTo (operations : List Operation) (left : Tree) :
    (operations.foldl Operation.applyTo left).tokens =
      left.tokens ++ operations.flatMap fun o => o.operator :: o.tree.tokens := by
  induction operations generalizing left with
  | nil => simp
  | cons o rest ih =>
    rw [List.foldl_cons, ih, List.flatMap_cons, ← List.append_assoc, Operation.applyTo,
      Tree.tokens_binary, Tree.tokens_token, List.singleton_append]

/-- The tokens in the tree of an expression are tokens of it, in their order. -/
theorem Derives.tokens_sublist {r : Rule} {tokens : List Token} {tree : Tree}
    (h : Derives r tokens tree) : tree.tokens.Sublist tokens := by
  induction h with
  | expression _ ih => exact ih
  | @assign name equals tokens value _ _ _ ih =>
    rw [Tree.tokens_assign, Tree.tokens_token]
    exact (ih.cons equals).cons_cons name
  | equality _ ih => exact ih
  | level operations _ _ _ _ ih ihs =>
    rw [tokens_foldl_applyTo]
    exact ih.append (List.Sublist.flatMap_right _ fun o ho => (ihs o ho).cons_cons o.operator)
  | @unary operator _ _ _ _ ih =>
    rw [Tree.tokens_unary, Tree.tokens_token]
    exact ih.cons_cons operator
  | primary _ ih => exact ih
  | literal =>
    rw [Tree.tokens_literal]
    exact List.nil_sublist _
  | reference => simp [Tree.tokens_token]
  | @grouping opening _ _ _ _ _ _ ih =>
    rw [Tree.tokens_grouping]
    exact (ih.cons opening).trans (List.sublist_append_left _ _)

/-- The tokens in the tree of a statement are tokens of it, in their order. -/
theorem Declaration.tokens_sublist {tokens : List Token} {tree : Tree}
    (h : Declaration tokens tree) : tree.tokens.Sublist tokens := by
  cases h with
  | var => simp [Tree.tokens_token]
  | @varInit kw name equals _ _ _ _ _ _ hd =>
    rw [Tree.tokens_varDecl, Tree.tokens_token]
    exact (((hd.tokens_sublist.cons equals).cons_cons name).cons kw).trans
      (List.sublist_append_left _ _)
  | @print kw _ _ _ _ hd =>
    rw [Tree.tokens_printStmt]
    exact (hd.tokens_sublist.cons kw).trans (List.sublist_append_left _ _)
  | expression hd =>
    rw [Tree.tokens_expressionStmt]
    exact hd.tokens_sublist.trans (List.sublist_append_left _ _)

theorem Program.tokens_sublist {tokens : List Token} {trees : List Tree}
    (h : Program tokens trees) : ∀ tree ∈ trees, tree.tokens.Sublist tokens := by
  induction h with
  | nil => exact fun tree ht => nomatch ht
  | cons hd _ ih =>
    refine List.forall_mem_cons.2 ⟨?_, fun tree ht => ?_⟩
    · exact hd.tokens_sublist.trans (List.sublist_append_left _ _)
    · exact (ih tree ht).trans (List.sublist_append_right _ _)

end Grammar

/-- Where the lines of the tokens in a tree do not descend, the first is the smallest. -/
theorem Tree.min?_line_tokens {t : Tree}
    (hlines : t.tokens.Pairwise fun tok tok' => tok.line ≤ tok'.line) (hne : t.tokens ≠ []) :
    (t.tokens.map Token.line).min? = some t.firstLine := by
  obtain ⟨first, rest, htokens⟩ := List.exists_cons_of_ne_nil hne
  rw [Tree.firstLine_eq]
  rw [htokens] at hlines ⊢
  rw [List.min?_eq_some_iff]
  refine ⟨List.mem_cons_self, List.forall_mem_map.2 (List.forall_mem_cons.2 ⟨Int.le_refl _, ?_⟩)⟩
  exact (List.pairwise_cons.1 hlines).1

/-- The loop over the stack ends for all trees, whatever stands in their fields, values included,
and gives the line of the first token that a recursive walk over the fields meets, or zero if there
is none. So it does for a tree without values in the place of trees. In a statement of a source text
that is parsed without complaints this is the smallest line of all tokens in the statement, if it
holds any. -/
theorem firstLine_first_and_least :
    (∀ (stack : List (Tree (Token ⊕ Value))) (line : Int), Tree.WalksTo stack line ↔
      line = ((Tree.met stack).head?.map Token.line).getD 0) ∧
    (∀ (t : Tree) (line : Int), Tree.WalksTo [t.map .inl] line ↔ line = t.firstLine) ∧
    (∀ t : Tree, t.firstLine = (t.tokens.head?.map Token.line).getD 0) ∧
    ∀ text : String, ∃ p, Program.ofTokens (Scan.ofSource text).tokens = .ok p ∧
      (p.errors = [] → ∀ stmt ∈ p.statements, stmt.toTree.tokens ≠ [] →
        (stmt.toTree.tokens.map Token.line).min? = some stmt.toTree.firstLine) := by
  refine ⟨fun stack line => Tree.walksTo_iff, fun t line => ?_, Tree.firstLine_eq, fun text => ?_⟩
  · rw [Tree.walksTo_iff, Tree.met_map_inl, Tree.firstLine_eq]
  have hend : (sourceEnd text).kind = .eof := rfl
  obtain ⟨stmts, s', hrun, hprogram⟩ := Program.exists_run (scannerShaped_sourceTokens text) hend
  have hlines := Scan.pairwise_line_tokens text
  rw [Scan.ofSource_tokens] at hlines ⊢
  refine ⟨_, hprogram, fun hclean stmt hmem hne => ?_⟩
  have hsublist : stmt.toTree.tokens.Sublist (sourceTokens text) :=
    (program_of_run hrun hclean).tokens_sublist _ (List.mem_map_of_mem hmem)
  exact Tree.min?_line_tokens ((List.pairwise_append.1 hlines).1.sublist hsublist) hne

end LoxTree
