import LoxTree.Proofs.Parsing.Trees
import Mathlib.Data.List.Perm.Basic

/-!
# The numbers of the nodes

The parser numbers nodes in the order in which it makes them, and a node is made when everything
below it is there. So the numbers ascend when nodes are listed from the leaves up. Numbers are lost
where the parser throws nodes away: in a declaration that fails, on the left side of an invalid
assignment, and once for every assignment, whose target was read as a variable before the equals
sign was seen. In a program without complaints the last are the only ones.

* `Stmt.postorder` lists the nodes of a statement from the leaves up, as `Stmt.numbering` lists them
  from the root down.
* `ParseState.Keeps` and `ParseState.Spends` say what became of the numbers that were given out
  between two states.
* `Accounts`: a step makes of the nodes that are at hand those of its result. `accounts_parse` and
  `accounts_statement` say so of every rule and of statements.
* `ProgramRun.spends`: the nodes of a whole program.
* `ofSource_numbers_ascend`: the numbers in the program that a source text spells.
-/

namespace LoxTree

open Step Parse

/-! ### Nodes from the leaves up -/

/-- The class and the number of a node. -/
abbrev Label :=
  String × Nat

namespace Expr

/-- The label of the node at the root. -/
def label (e : Expr) : Label :=
  (e.toTree.className, e.id)

/-- The nodes below the root, each behind those below it. -/
def descendants : Expr → List Expr
  | literal _ _ | reference _ _ => []
  | grouping _ e | unary _ _ e | assign _ _ e => e.descendants ++ [e]
  | binary _ l _ r => l.descendants ++ [l] ++ (r.descendants ++ [r])

/-- The label of every node, from the leaves up. -/
def postorder (e : Expr) : List Label :=
  (e.descendants ++ [e]).map label

@[simp] theorem postorder_literal (i : Nat) (v : Value) :
    (literal i v).postorder = [("Literal", i)] :=
  rfl

@[simp] theorem postorder_reference (i : Nat) (name : Token) :
    (reference i name).postorder = [("Variable", i)] :=
  rfl

@[simp] theorem postorder_grouping (i : Nat) (e : Expr) :
    (grouping i e).postorder = e.postorder ++ [("Grouping", i)] :=
  List.map_append

@[simp] theorem postorder_unary (i : Nat) (operator : Token) (e : Expr) :
    (unary i operator e).postorder = e.postorder ++ [("Unary", i)] :=
  List.map_append

@[simp] theorem postorder_assign (i : Nat) (name : Token) (e : Expr) :
    (assign i name e).postorder = e.postorder ++ [("Assign", i)] :=
  List.map_append

@[simp] theorem postorder_binary (i : Nat) (l : Expr) (operator : Token) (r : Expr) :
    (binary i l operator r).postorder = l.postorder ++ r.postorder ++ [("Binary", i)] := by
  simp [postorder, descendants, label, toTree, Tree.className, id]

/-- Both listings have the same nodes. -/
theorem perm_numbering (e : Expr) : e.postorder.Perm e.numbering := by
  induction e with
  | literal | reference => exact .refl _
  | grouping _ _ ih | unary _ _ _ ih | assign _ _ _ ih =>
    simp only [postorder_grouping, postorder_unary, postorder_assign]
    exact (List.perm_append_singleton _ _).trans (ih.cons _)
  | binary _ _ _ _ ihl ihr =>
    rw [postorder_binary]
    exact (List.perm_append_singleton _ _).trans ((ihl.append ihr).cons _)

end Expr

namespace Stmt

/-- The nodes below the root, each behind those below it. -/
def descendants : Stmt → List Expr
  | expression _ e | print _ e | var _ _ (some e) => e.descendants ++ [e]
  | var _ _ none => []

/-- The label of every node, from the leaves up. -/
def postorder (stmt : Stmt) : List Label :=
  stmt.descendants.map Expr.label ++ [(stmt.toTree.className, stmt.id)]

theorem postorder_var (i : Nat) (name : Token) (e? : Option Expr) :
    (var i name e?).postorder = e?.toList.flatMap Expr.postorder ++ [("Var", i)] := by
  cases e? with
  | none => rfl
  | some e =>
    rw [Option.toList_some, List.flatMap_singleton]
    rfl

theorem perm_numbering (stmt : Stmt) : stmt.postorder.Perm stmt.numbering := by
  refine (List.perm_append_singleton _ _).trans ?_
  cases stmt with
  | expression i e => exact e.perm_numbering.cons _
  | print i e => exact e.perm_numbering.cons _
  | var i name e? =>
    cases e? with
    | none => exact .refl _
    | some e => exact e.perm_numbering.cons _

end Stmt

/-! ### What became of the numbers -/

/-- Whether a node is an assignment, by its class. -/
def isAssignment (node : Label) : Bool :=
  node.1 = "Assign"

/-- A later state, with nodes that are made of numbers given out on the way to it, in that order. -/
structure ParseState.Keeps (s : ParseState) (nodes : List Label) (s' : ParseState) :
    Prop where
  later : s.Extends s'
  numbers : ∃ given, s'.nodes = s.nodes + given ∧
    (nodes.map Prod.snd).Sublist (List.range' (s.nodes + 1) given)

/-- A later state, with all nodes that are left of those made on the way to it. Without a complaint
there is one number for every node, and one more for every assignment. -/
structure ParseState.Spends (s : ParseState) (nodes : List Label) (s' : ParseState) : Prop
    extends s.Keeps nodes s' where
  count : s'.errors = s.errors → s'.nodes = s.nodes + nodes.length + nodes.countP isAssignment

namespace ParseState

variable {s t u : ParseState} {nodes nodes' : List Label}

theorem Keeps.sublist (h : s.Keeps nodes t) (hsub : nodes'.Sublist nodes) : s.Keeps nodes' t := by
  obtain ⟨given, hgiven, hnumbers⟩ := h.numbers
  exact ⟨h.later, given, hgiven, (hsub.map Prod.snd).trans hnumbers⟩

theorem Keeps.trans (h : s.Keeps nodes t) (h' : t.Keeps nodes' u) :
    s.Keeps (nodes ++ nodes') u := by
  obtain ⟨given, hgiven, hnumbers⟩ := h.numbers
  obtain ⟨given', hgiven', hnumbers'⟩ := h'.numbers
  refine ⟨h.later.trans h'.later, given + given', by omega, ?_⟩
  have hnext : t.nodes + 1 = s.nodes + 1 + given := by omega
  rw [hnext] at hnumbers'
  rw [List.map_append, ← List.range'_append_1]
  exact hnumbers.append hnumbers'

/-- A complaint may throw nodes away. -/
theorem Keeps.complaint (h : s.Keeps nodes t) (hsub : nodes'.Sublist nodes) {d : Diagnostic}
    (hext : t.Extends u) (hnodes : u.nodes = t.nodes) (herrors : u.errors = t.errors ++ [d]) :
    s.Spends nodes' u := by
  obtain ⟨given, hgiven, hnumbers⟩ := (h.sublist hsub).numbers
  refine ⟨⟨h.later.trans hext, given, hnodes.trans hgiven, hnumbers⟩, fun hclean => ?_⟩
  exact absurd (herrors.symm.trans hclean) (ParseState.errors_recover_ne h.later d)

namespace Spends

theorem refl (s : ParseState) : s.Spends [] s :=
  ⟨⟨.refl s, 0, rfl, List.nil_sublist _⟩, fun _ => rfl⟩

theorem trans (h : s.Spends nodes t) (h' : t.Spends nodes' u) : s.Spends (nodes ++ nodes') u := by
  refine ⟨h.toKeeps.trans h'.toKeeps, fun hclean => ?_⟩
  -- no complaint was added in either part
  have hfirst : t.errors = s.errors := h.later.errors_eq h'.later hclean
  have hcount := h.count hfirst
  have hcount' := h'.count (hclean.trans hfirst.symm)
  rw [List.length_append, List.countP_append]
  omega

/-- Taking a token makes no node. -/
theorem take {x : Token} {rest : List Token} (hrest : t.rest = x :: rest) (h : s.Spends nodes t) :
    s.Spends nodes { t with rest } := by
  obtain ⟨given, hgiven, hnumbers⟩ := h.numbers
  exact ⟨⟨h.later.trans (.take hrest t.nodes), given, hgiven, hnumbers⟩, h.count⟩

/-- A new node above those that are there. -/
theorem node (h : s.Spends nodes t) (className : String) (hclass : className ≠ "Assign") :
    s.Spends (nodes ++ [(className, t.nodes + 1)]) { t with nodes := t.nodes + 1 } := by
  refine h.trans ⟨⟨⟨rfl, List.suffix_refl _, List.prefix_refl _⟩, 1, rfl, .refl _⟩, fun _ => ?_⟩
  simp [isAssignment, hclass]

/-- A new assignment in the place of its target, which was a node. -/
theorem assign {i : Nat} (h : s.Spends (("Variable", i) :: nodes) t) :
    s.Spends (nodes ++ [("Assign", t.nodes + 1)]) { t with nodes := t.nodes + 1 } := by
  have hnew : t.Keeps [("Assign", t.nodes + 1)] { t with nodes := t.nodes + 1 } :=
    ⟨⟨rfl, List.suffix_refl _, List.prefix_refl _⟩, 1, rfl, .refl _⟩
  refine ⟨(h.toKeeps.sublist (List.sublist_cons_self _ _)).trans hnew, fun hclean => ?_⟩
  -- the number of the target is the one that the assignment takes beside its own
  have hcount : t.nodes = s.nodes + (nodes.length + 1) + nodes.countP isAssignment := by
    simpa [isAssignment] using h.count hclean
  have hassign : [("Assign", t.nodes + 1)].countP isAssignment = 1 := by simp [isAssignment]
  rw [List.length_append, List.length_singleton, List.countP_append, hassign]
  show t.nodes + 1 = _
  omega

end Spends

end ParseState

/-! ### Steps that account for their nodes -/

/-- Where the given nodes account for the numbers given out since some state, those of the result do
so afterwards; a failure loses them all. -/
def Accounts {α : Type} (given : List Label) (kept : α → List Label)
    (m : Parse α) : Prop :=
  ∀ s₀ s : ParseState, s₀.Spends given s →
    Ensures m s (fun a s' => s₀.Spends (kept a) s') (fun _ s' => s₀.Keeps [] s')

namespace Accounts

variable {α β : Type} {given nodes : List Label} {kept : α → List Label}
variable {m : Parse α}

theorem pure {a : α} (h : kept a = given) : Accounts given kept (Pure.pure a) :=
  fun _ _ hs => Ensures.pure (h ▸ hs)

theorem throw (f : Fault) : Accounts given kept (MonadExcept.throw f) :=
  fun _ _ hs => Ensures.throw (hs.toKeeps.sublist (List.nil_sublist _))

theorem bind {k : α → Parse β} {kept' : β → List Label} (h : Accounts given kept m)
    (hk : ∀ a, Accounts (kept a) kept' (k a)) : Accounts given kept' (m >>= k) :=
  fun s₀ s hs => Ensures.bind ((h s₀ s hs).mono (fun a s' => hk a s₀ s') fun _ _ => id)

/-- Nodes that are there already stay before those that a step makes. -/
theorem frame (h : Accounts [] kept m) (nodes : List Label) :
    Accounts nodes (fun a => nodes ++ kept a) m := by
  intro s₀ s hs
  refine (h s s (.refl s)).mono (fun a s' hs' => hs.trans hs') fun f s' hs' => ?_
  exact (hs.toKeeps.trans hs').sublist (List.nil_sublist _)

theorem map {g : α → β} {kept' : β → List Label} (h : Accounts given kept m)
    (hg : ∀ a, kept' (g a) = kept a) : Accounts given kept' (g <$> m) := by
  intro s₀ s hs
  refine Ensures.map ((h s₀ s hs).mono (fun a s' hs' => ?_) fun _ _ => id)
  rwa [hg]

end Accounts

section

variable {given : List Label}

theorem accounts_accept (kinds : List Kind) : Accounts given (fun _ => given) (accept kinds) := by
  intro s₀ s hs
  rcases accept_cases kinds s with ⟨t, rest, hrest, -, h⟩ | ⟨-, h⟩
  · exact .of_ok h (hs.take hrest)
  · exact .of_ok h hs

theorem accounts_expect (kind : Kind) (c : Complaint) :
    Accounts given (fun _ => given) (expect kind c) := by
  intro s₀ s hs
  rcases expect_cases kind c s with ⟨t, rest, hrest, -, h⟩ | ⟨-, h⟩
  · exact .of_ok h (hs.take hrest)
  · exact .of_error h (hs.toKeeps.sublist (List.nil_sublist _))

theorem accounts_newNode (className : String) (hclass : className ≠ "Assign") :
    Accounts given (fun i => given ++ [(className, i)]) newNode :=
  fun _ s hs => .of_ok (newNode_apply s) (hs.node className hclass)

/-- An assignment keeps the nodes of its value. A target that is a variable gives way to the
assignment, and any other is dropped with a complaint. -/
theorem accounts_assignTo (target : Expr) (equals : Token) (value : Expr) :
    Accounts (target.postorder ++ value.postorder) Expr.postorder
      (assignTo target equals value) := by
  intro s₀ s hs
  rcases assignTo_cases target equals value s with ⟨i, name, rfl, h⟩ | ⟨-, h⟩
  · refine .of_ok h ?_
    rw [Expr.postorder_assign]
    exact hs.assign
  · refine .of_ok h (hs.toKeeps.complaint (List.sublist_append_right _ _) ?_ rfl rfl)
    exact ⟨rfl, List.suffix_refl _, List.prefix_append _ _⟩

theorem accounts_foldOperators {operators : List Kind} {operand : Parse Expr}
    (h : Accounts [] Expr.postorder operand) (rounds : Nat) (left : Expr) :
    Accounts left.postorder Expr.postorder (foldOperators operators operand rounds left) := by
  induction rounds generalizing left with
  | zero => exact .pure rfl
  | succ rounds ih =>
    refine (accounts_accept operators).bind ?_
    rintro (_ | operator)
    · exact .pure rfl
    · refine (h.frame left.postorder).bind fun right =>
        (accounts_newNode "Binary" (by decide)).bind fun i => ?_
      rw [← Expr.postorder_binary i left operator right]
      exact ih _

theorem accounts_leftAssoc {operators : List Kind} {operand : Parse Expr}
    (h : Accounts [] Expr.postorder operand) :
    Accounts [] Expr.postorder (leftAssoc operators operand) :=
  h.bind fun left s₀ s hs => accounts_foldOperators h s.rest.length left s₀ s hs

theorem accounts_closeGroup {inner : Parse Expr} (h : Accounts [] Expr.postorder inner) :
    Accounts [] Expr.postorder (closeGroup inner) :=
  h.bind fun e => (accounts_expect _ _).bind fun _ =>
    (accounts_newNode "Grouping" (by decide)).bind fun i =>
      .pure (Expr.postorder_grouping i e)

/-- Every rule accounts for the nodes of the expression that it makes. -/
theorem accounts_parse (room : Nat) (r : Rule) :
    Accounts [] Expr.postorder (Rule.parse room r) := by
  induction room, r using Rule.parse_induction with
  | expression room ih => exact ih
  | assignment room ih₁ ih₂ =>
    rw [parse_assignment_eq]
    refine ih₁.bind fun target => (accounts_accept _).bind ?_
    rintro (_ | equals)
    · exact .pure rfl
    · exact (ih₂.frame target.postorder).bind fun value => accounts_assignTo target equals value
  | level room r operators q _ heq ih =>
    rw [heq]
    exact accounts_leftAssoc ih
  | unary room ih₁ ih₂ =>
    refine (accounts_accept _).bind ?_
    rintro (_ | operator)
    · exact ih₂
    · exact ih₁.bind fun e => (accounts_newNode "Unary" (by decide)).bind fun i =>
        .pure (Expr.postorder_unary i operator e)
  | primary room ih =>
    intro s₀ s hs
    rcases parse_primary_cases room s with ⟨t, rest, v, hrest, -, h⟩ |
      ⟨t, rest, f, hrest, -, -, h⟩ | ⟨t, rest, hrest, -, h⟩ | ⟨t, rest, hrest, -, h⟩ | ⟨-, h⟩
    · exact .of_ok h ((hs.take hrest).node "Literal" (by decide))
    · exact .of_error h (hs.take hrest).toKeeps
    · exact .of_ok h ((hs.take hrest).node "Variable" (by decide))
    · exact (Ensures.congr h).2 (accounts_closeGroup ih s₀ _ (hs.take hrest))
    · exact .of_error h hs.toKeeps
  | noRoom room r heq =>
    rw [heq]
    exact .throw _

/-! ### Statements and programs -/

/-- The last steps of a statement, its semicolon and its node. -/
theorem accounts_finish (className : String) (hclass : className ≠ "Assign") (c : Complaint)
    {g : Nat → Stmt} (hg : ∀ i, (g i).postorder = given ++ [(className, i)]) :
    Accounts given Stmt.postorder (do let _ ← expect .semicolon c; return g (← newNode)) :=
  (accounts_expect _ _).bind fun _ => (accounts_newNode className hclass).bind fun i => .pure (hg i)

/-- Statements account for their nodes. -/
theorem accounts_statement (room : Nat) : Accounts [] Stmt.postorder (statement room) := by
  have hexpression := accounts_parse room .expression
  refine (accounts_accept _).bind ?_
  rintro (_ | var)
  · refine (accounts_accept _).bind ?_
    rintro (_ | print)
    · exact hexpression.bind fun e => accounts_finish "Expression" (by decide) _ fun _ => rfl
    · exact hexpression.bind fun e => accounts_finish "Print" (by decide) _ fun _ => rfl
  · refine (accounts_expect _ _).bind fun name => (accounts_accept _).bind ?_
    have hnone : Accounts [] (·.toList.flatMap Expr.postorder)
        (Pure.pure none : Parse (Option Expr)) :=
      .pure rfl
    have hsome : Accounts [] (·.toList.flatMap Expr.postorder)
        (some <$> Rule.parse room .expression) :=
      hexpression.map fun e => List.flatMap_singleton Expr.postorder e
    have hfinish (e? : Option Expr) :=
      accounts_finish "Var" (by decide) .expectDeclarationEnd (Stmt.postorder_var · name e?)
    rintro (_ | equals)
    · exact hnone.bind hfinish
    · exact hsome.bind hfinish

/-- A declaration accounts for the nodes of its statement, if it has one. -/
theorem spends_of_declaration {room : Nat} {s t : ParseState} {stmt? : Option Stmt}
    (h : declaration room s = .ok stmt? t) : s.Spends (stmt?.toList.flatMap Stmt.postorder) t := by
  have hstatement := accounts_statement room s s (.refl s)
  rcases declaration_cases room s with ⟨stmt, u, hs, hd⟩ | ⟨f, d, u, hs, -, hd⟩ | ⟨f, u, -, -, hd⟩
  · rw [hd] at h
    cases h
    rw [Option.toList_some, List.flatMap_singleton]
    exact hstatement.ok hs
  · rw [hd] at h
    cases h
    exact (hstatement.error hs).complaint (.refl _) (u.extends_recover d) rfl rfl
  · rw [hd] at h
    cases h

/-- A program accounts for the nodes of its statements, whatever number the first node has. -/
theorem ProgramRun.spends {room : Nat} {s s' : ParseState} {stmts : List Stmt}
    (h : ProgramRun room s stmts s') : s.Spends (stmts.flatMap Stmt.postorder) s' := by
  induction h with
  | done => exact .refl _
  | next _ hd _ ih =>
    rw [List.flatMap_append]
    exact (spends_of_declaration hd).trans ih

end

/-! ### Numbers and descent -/

/-- A node is listed behind everything below it, also in the listing of a node above. -/
theorem Expr.sublist_descendants {x e : Expr} (h : e ∈ x.descendants ++ [x]) :
    (e.descendants ++ [e]).Sublist (x.descendants ++ [x]) := by
  induction x with
  | literal | reference => rw [List.mem_singleton.1 h]
  | grouping _ _ ih | unary _ _ _ ih | assign _ _ _ ih =>
    rcases List.mem_append.1 h with h | h
    · exact (ih h).trans (List.sublist_append_left _ _)
    · rw [List.mem_singleton.1 h]
  | binary _ _ _ _ ihl ihr =>
    rcases List.mem_append.1 h with h | h
    · refine List.Sublist.trans ?_ (List.sublist_append_left _ _)
      rcases List.mem_append.1 h with h | h
      · exact (ihl h).trans (List.sublist_append_left _ _)
      · exact (ihr h).trans (List.sublist_append_right _ _)
    · rw [List.mem_singleton.1 h]

theorem Stmt.sublist_descendants {stmt : Stmt} {e : Expr} (h : e ∈ stmt.descendants) :
    (e.descendants ++ [e]).Sublist stmt.descendants := by
  cases stmt with
  | expression => exact Expr.sublist_descendants h
  | print => exact Expr.sublist_descendants h
  | var _ _ e? =>
    cases e? with
    | none => cases h
    | some => exact Expr.sublist_descendants h

/-- Where the numbers ascend from the leaves up, a node has a larger number than all below it. -/
theorem Stmt.id_lt_of_ascending {stmt : Stmt}
    (h : (stmt.postorder.map Prod.snd).Pairwise (· < ·)) :
    ∀ e ∈ stmt.descendants, e.id < stmt.id ∧ ∀ d ∈ e.descendants, d.id < e.id := by
  have hnumbers : stmt.postorder.map Prod.snd = stmt.descendants.map Expr.id ++ [stmt.id] := by
    simp [Stmt.postorder, Expr.label]
  rw [hnumbers] at h
  obtain ⟨hbelow, -, hroot⟩ := List.pairwise_append.1 h
  intro e he
  refine ⟨hroot _ (List.mem_map_of_mem he) _ List.mem_cons_self, fun d hd => ?_⟩
  have hnode : ((e.descendants ++ [e]).map Expr.id).Pairwise (· < ·) :=
    hbelow.sublist ((Stmt.sublist_descendants he).map Expr.id)
  rw [List.map_append] at hnode
  exact (List.pairwise_append.1 hnode).2.2 _ (List.mem_map_of_mem hd) _ List.mem_cons_self

/-- The nodes of the program that a source text spells. From the leaves up, statement by statement,
their numbers are some of those that the parser used up, in ascending order. So no two nodes have
the same number, and a node has a larger one than all nodes below it. If the parser has no complaint
then it used up one number for every node and one more for every assignment. -/
theorem ofSource_numbers_ascend (text : String) :
    ∃ p, Program.ofTokens (Scan.ofSource text).tokens = .ok p ∧
      (p.statements.flatMap Stmt.postorder).Perm (p.statements.flatMap Stmt.numbering) ∧
      ((p.statements.flatMap Stmt.postorder).map Prod.snd).Sublist (List.range' 1 p.nodes) ∧
      ((p.statements.flatMap Stmt.postorder).map Prod.snd).Pairwise (· < ·) ∧
      ((p.statements.flatMap Stmt.numbering).map Prod.snd).Nodup ∧
      (∀ stmt ∈ p.statements, ∀ e ∈ stmt.descendants,
        e.id < stmt.id ∧ ∀ d ∈ e.descendants, d.id < e.id) ∧
      (p.errors = [] → p.nodes = (p.statements.flatMap Stmt.numbering).length +
        (p.statements.flatMap Stmt.numbering).countP isAssignment) := by
  have hend : (sourceEnd text).kind = .eof := rfl
  obtain ⟨stmts, s', hrun, hprogram⟩ := Program.exists_run (scannerShaped_sourceTokens text) hend
  obtain ⟨⟨-, given, hgiven, hnumbers⟩, hcount⟩ := hrun.spends
  obtain rfl : s'.nodes = given := hgiven.trans (Nat.zero_add _)
  have hperm : (stmts.flatMap Stmt.postorder).Perm (stmts.flatMap Stmt.numbering) :=
    List.Perm.flatMap_left _ fun stmt _ => stmt.perm_numbering
  have hascend : ((stmts.flatMap Stmt.postorder).map Prod.snd).Pairwise (· < ·) :=
    (List.pairwise_lt_range' 1).sublist hnumbers
  rw [Scan.ofSource_tokens]
  refine ⟨_, hprogram, hperm, hnumbers, hascend, ?_, fun stmt hmem => ?_, fun hclean => ?_⟩
  · exact (hperm.map Prod.snd).nodup_iff.1 (hascend.imp Nat.ne_of_lt)
  · rw [List.map_flatMap] at hascend
    exact stmt.id_lt_of_ascending ((List.pairwise_flatMap.1 hascend).1 stmt hmem)
  · have htotal : s'.nodes = 0 + _ + _ := hcount hclean
    rwa [hperm.length_eq, hperm.countP_eq, Nat.zero_add] at htotal

end LoxTree
