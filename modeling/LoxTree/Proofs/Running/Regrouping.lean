import LoxTree.Proofs.Encoding.Trees
import LoxTree.Proofs.Parsing.Recognition
import LoxTree.Proofs.Running.Lines

/-!
# Redundant parentheses do not matter

Parentheses around the tokens of a node of an expression change the tree by a grouping around that
node and by nothing else, and the two trees have the same value, the same failures and the same
effects.

* `Tree.width`, `Tree.Regrouped`: the tokens that spell a tree, and a tree with one of its nodes
  grouped, together with the place of that node among the tokens.
* `derives_regrouped`: what the grammar derives from the tokens with the parentheses. A phrase of
  any rule is an expression, so it may stand between parentheses, and between parentheses it is a
  phrase of every rule, so it may stand where it stood.
* `evaluate_regrouped`: a grouping takes one more unit of room, and evaluation does not depend on
  the room unless it runs out of it.
* `ofTokens_regrouped`: both for an expression that stands alone.
-/

namespace LoxTree

open Step Run Grammar Parse

/-! ### Nodes and their tokens -/

namespace Tree

/-- The number of tokens that spell an expression. -/
def width : Tree → Nat
  | grouping e => e.width + 2
  | unary _ e => e.width + 1
  | binary l _ r => l.width + 1 + r.width
  | assign _ e => e.width + 2
  | _ => 1

/-- `Regrouped t start n t'`: in the expression `t` the node `n` stands behind the first `start`
tokens, and `t'` is the expression with that node in parentheses. There is one case for the root and
one for each place where a node holds another one. -/
inductive Regrouped : Tree → Nat → Tree → Tree → Prop
  | here (t : Tree) : Regrouped t 0 t (.grouping t)
  | grouping {e e' n : Tree} {start : Nat} : Regrouped e start n e' →
    Regrouped (.grouping e) (start + 1) n (.grouping e')
  | operand {op e e' n : Tree} {start : Nat} : Regrouped e start n e' →
    Regrouped (.unary op e) (start + 1) n (.unary op e')
  | left {l l' op r n : Tree} {start : Nat} : Regrouped l start n l' →
    Regrouped (.binary l op r) start n (.binary l' op r)
  | right {l op r r' n : Tree} {start : Nat} : Regrouped r start n r' →
    Regrouped (.binary l op r) (l.width + 1 + start) n (.binary l op r')
  | value {name e e' n : Tree} {start : Nat} : Regrouped e start n e' →
    Regrouped (.assign name e) (start + 2) n (.assign name e')

end Tree

theorem width_foldl_applyTo {operations : List Operation}
    (h : ∀ o ∈ operations, o.operand.length = o.tree.width) (left : Tree) :
    (operations.foldl Operation.applyTo left).width =
      left.width + (operations.flatMap Operation.tokens).length := by
  induction operations generalizing left with
  | nil => rfl
  | cons o rest ih =>
    have ho := h o List.mem_cons_self
    have hrest := ih (fun o ho => h o (List.mem_cons_of_mem _ ho)) (o.applyTo left)
    have hwidth : (o.applyTo left).width = left.width + 1 + o.tree.width := rfl
    rw [List.foldl_cons, hrest, hwidth, List.flatMap_cons, List.length_append, Operation.tokens,
      List.length_cons]
    omega

/-- A tree has as many tokens as the phrase that it is the tree of. -/
theorem Grammar.Derives.length_eq_width {r : Rule} {tokens : List Token} {tree : Tree}
    (h : Derives r tokens tree) : tokens.length = tree.width := by
  induction h with
  | expression _ ih => exact ih
  | assign _ _ _ ih => simp [Tree.width, ih]
  | equality _ ih => exact ih
  | level operations _ _ _ _ ih ihs => rw [List.length_append, ih, width_foldl_applyTo ihs]
  | unary _ _ ih => simp [Tree.width, ih]
  | primary _ ih => exact ih
  | literal => rfl
  | reference => rfl
  | grouping _ _ _ ih => simp [Tree.width, ih]

/-! ### Derivations with a node in parentheses -/

/-- The tokens with two more: one before and one behind the `width` tokens that follow the first
`start`. -/
def enclose (opening closing : Token) (start width : Nat) (tokens : List Token) : List Token :=
  tokens.take start ++
    opening :: ((tokens.drop start).take width ++ closing :: tokens.drop (start + width))

section

variable {opening closing : Token}

theorem enclose_append {before span after : List Token} {start width : Nat}
    (hstart : before.length = start) (hwidth : span.length = width) :
    enclose opening closing start width (before ++ (span ++ after)) =
      before ++ opening :: (span ++ closing :: after) := by
  subst hstart hwidth
  unfold enclose
  rw [List.take_left, List.drop_left, List.take_left, ← List.append_assoc before,
    ← List.length_append, List.drop_left]

/-- A phrase between parentheses is a phrase of the same rule. -/
theorem derives_grouping {r : Rule} {tokens : List Token} {tree : Tree} (h : Derives r tokens tree)
    (ho : opening.kind = .leftParen) (hc : closing.kind = .rightParen) :
    Derives r (opening :: (tokens ++ [closing])) (.grouping tree) :=
  (Within.bounds r).1 _ _ (.grouping ho ((Within.bounds r).2 _ _ h) hc)

/-- The tokens of a node are a phrase by themselves, and with parentheses around them the whole is a
phrase of the same rule, with a grouping around the node. -/
theorem derives_regrouped {t t' n : Tree} {start : Nat} (hn : t.Regrouped start n t')
    (ho : opening.kind = .leftParen) (hc : closing.kind = .rightParen) {r : Rule}
    {tokens : List Token} (h : Derives r tokens t) :
    ∃ before span after, tokens = before ++ (span ++ after) ∧ before.length = start ∧
      Derives .expression span n ∧
      Derives r (before ++ opening :: (span ++ closing :: after)) t' := by
  -- by the place of the node; the last step of the derivation is the one that makes the root
  induction hn generalizing r tokens with
  | here t =>
    refine ⟨[], tokens, [], by simp, rfl, (Within.bounds r).2 _ _ h, ?_⟩
    exact derives_grouping h ho hc
  | grouping _ ih =>
    obtain ⟨q, hq, hb⟩ := h.exists_built
    cases hb with
    | @grouping o c inner _ hok hd hck =>
      obtain ⟨before, span, after, rfl, hlen, hspan, hd'⟩ := ih hd
      refine ⟨o :: before, span, after ++ [c], by simp, by simp [hlen], hspan, hq _ _ ?_⟩
      have hb := Built.grouping hok hd' hck
      simpa using hb.derives
  | operand _ ih =>
    obtain ⟨q, hq, hb⟩ := h.exists_built
    cases hb with
    | @unary operator inner _ hk hd =>
      obtain ⟨before, span, after, rfl, hlen, hspan, hd'⟩ := ih hd
      exact ⟨operator :: before, span, after, rfl, by simp [hlen], hspan, hq _ _ (.unary hk hd')⟩
  | left _ ih =>
    obtain ⟨q, hq, hb⟩ := h.exists_built
    cases hb with
    | @binary _ _ operators leftTokens rightTokens operator _ _ hl hleft hk hright =>
      obtain ⟨before, span, after, rfl, hlen, hspan, hleft'⟩ := ih hleft
      refine ⟨before, span, after ++ operator :: rightTokens, by simp, hlen, hspan, hq _ _ ?_⟩
      have hb := Built.binary hl hleft' hk hright
      simpa using hb.derives
  | right _ ih =>
    obtain ⟨q, hq, hb⟩ := h.exists_built
    cases hb with
    | @binary _ _ operators leftTokens rightTokens operator _ _ hl hleft hk hright =>
      obtain ⟨before, span, after, rfl, hlen, hspan, hright'⟩ := ih hright
      have hwidth := hleft.length_eq_width
      refine ⟨leftTokens ++ operator :: before, span, after, by simp, ?_, hspan, hq _ _ ?_⟩
      · rw [List.length_append, List.length_cons, hlen, hwidth]
        omega
      · have hb := Built.binary hl hleft hk hright'
        simpa using hb.derives
  | value _ ih =>
    obtain ⟨q, hq, hb⟩ := h.exists_built
    cases hb with
    | @assign name equals inner _ hid heq hd =>
      obtain ⟨before, span, after, rfl, hlen, hspan, hd'⟩ := ih hd
      exact ⟨name :: equals :: before, span, after, rfl, by simp [hlen], hspan,
        hq _ _ (.assign hid heq hd')⟩

end

/-! ### Evaluation -/

/-- A step that does what another one does, unless it runs out of room. -/
def UpToRoom {α : Type} (m n : Run α) : Prop :=
  ∀ s, m s = n s ∨ ∃ u, m s = .error .tooDeep u

namespace UpToRoom

variable {α β : Type}

theorem refl (m : Run α) : UpToRoom m m :=
  fun _ => .inl rfl

theorem tooDeep (n : Run α) : UpToRoom (throw .tooDeep) n :=
  fun s => .inr ⟨s, rfl⟩

theorem bind {m n : Run α} {k l : α → Run β} (h : UpToRoom m n) (hk : ∀ a, UpToRoom (k a) (l a)) :
    UpToRoom (m >>= k) (n >>= l) := by
  intro s
  rcases h s with heq | ⟨u, herr⟩
  · cases hm : m s with
    | ok a t =>
      rw [bind_of_ok hm, bind_of_ok (heq ▸ hm)]
      exact hk a t
    | error f t =>
      rw [bind_of_error hm, bind_of_error (heq ▸ hm)]
      exact .inl rfl
  · exact .inr ⟨u, bind_of_error herr⟩

end UpToRoom

/-- One more unit of room changes nothing but that there is more of it. -/
theorem evaluate_succ (scope room : Nat) (t : Tree) :
    UpToRoom (evaluate scope room t) (evaluate scope (room + 1) t) := by
  induction room generalizing t with
  | zero => exact .tooDeep _
  | succ room ih =>
    cases t with
    | grouping e => exact ih e
    | unary op e => exact (ih e).bind fun _ => .refl _
    | binary l op r => exact (ih l).bind fun _ => (ih r).bind fun _ => .refl _
    | assign n e => exact (ih e).bind fun _ => .refl _
    | _ => exact .refl _

/-- A grouping around a node changes nothing, unless the room runs out. -/
theorem evaluate_regrouped {t t' n : Tree} {start : Nat} (hn : t.Regrouped start n t')
    (scope room : Nat) : UpToRoom (evaluate scope room t') (evaluate scope room t) := by
  induction room generalizing t t' n start with
  | zero => exact .tooDeep _
  | succ room ih =>
    cases hn with
    | here => exact evaluate_succ scope room t
    | grouping hn => exact ih hn
    | operand hn => exact (ih hn).bind fun _ => .refl _
    | left hn => exact (ih hn).bind fun _ => .refl _
    | right hn => exact (UpToRoom.refl _).bind fun _ => (ih hn).bind fun _ => .refl _
    | value hn => exact (ih hn).bind fun _ => .refl _

/-! ### Room enough -/

theorem applyUnary_ne_tooDeep (operator : Token) (v : Value) :
    applyUnary operator v ≠ .error .tooDeep := by
  intro h
  rcases applyUnary_error h with ⟨c, hf⟩ | hf <;> cases hf

theorem applyBinary_ne_tooDeep (operator : Token) (v w : Value) :
    applyBinary operator v w ≠ .error .tooDeep := by
  intro h
  rcases applyBinary_error h with ⟨c, hf⟩ | hf <;> cases hf

theorem Tree.asToken_ne_tooDeep (t : Tree) : t.asToken ≠ .error .tooDeep :=
  fun h => nomatch missingPart_of_asToken h

namespace HasRoom

variable {α β : Type} {m : Run α} {s : Session}

theorem bind {k : α → Run β} (h : HasRoom m s) (hk : ∀ a s', HasRoom (k a) s') :
    HasRoom (m >>= k) s :=
  Ensures.bind (h.mono (fun a s' _ => hk a s') fun _ _ => id)

theorem ofExcept {x : Except Fault α} (h : x ≠ .error .tooDeep) :
    HasRoom (MonadExcept.ofExcept x : Run α) s :=
  Ensures.ofExcept (fun _ _ => trivial) fun _ hf heq => h (heq ▸ hf)

theorem unsupported (u : Unsupported) : HasRoom (throw (.unsupported u) : Run α) s := by
  apply Ensures.throw
  simp

end HasRoom

theorem hasRoom_readName (scope : Nat) (name : Token) (s : Session) :
    HasRoom (readName scope name) s := by
  unfold HasRoom Ensures
  rw [readName_apply]
  cases s.scopes.get scope name with
  | ok v => trivial
  | error d => nofun

theorem hasRoom_assignName (scope : Nat) (name : Token) (value : Value) (s : Session) :
    HasRoom (assignName scope name value) s := by
  unfold HasRoom Ensures
  rw [assignName_apply]
  cases s.scopes.assign scope name value with
  | ok scopes => trivial
  | error d => nofun

/-- A tree with no more levels than there is room is evaluated without running out of it. -/
theorem hasRoom_evaluate (scope : Nat) {room : Nat} {t : Tree} (h : t.depth ≤ room) (s : Session) :
    HasRoom (evaluate scope room t) s := by
  induction room generalizing t s with
  | zero =>
    have hpos := t.depth_pos
    omega
  | succ room ih =>
    have hparts := Tree.depth_le_succ_iff.1 h
    cases t with
    | literal v =>
      show HasRoom (if v.isLox then pure v else throw _) s
      split
      · exact Ensures.pure trivial
      · exact .unsupported _
    | grouping e => exact ih (hparts e (by simp [Tree.parts, Tree.fields])) s
    | reference n =>
      exact (HasRoom.ofExcept n.asToken_ne_tooDeep).bind fun name s => hasRoom_readName scope name s
    | assign n e =>
      have he := hparts e (by simp [Tree.parts, Tree.fields])
      refine (ih he s).bind fun value s => (HasRoom.ofExcept n.asToken_ne_tooDeep).bind
        fun name s => (hasRoom_assignName scope name value s).bind fun _ s => ?_
      obtain ⟨u, hu, -, -⟩ := note_eq_ok 2 (bindingNote "assign" name.lexeme value) s
      exact Ensures.bind (.of_ok hu (Ensures.pure trivial))
    | unary op e =>
      have he := hparts e (by simp [Tree.parts, Tree.fields])
      exact (ih he s).bind fun value s => (HasRoom.ofExcept op.asToken_ne_tooDeep).bind
        fun operator s => .ofExcept (applyUnary_ne_tooDeep operator value)
    | binary l op r =>
      have hl := hparts l (by simp [Tree.parts, Tree.fields])
      have hr := hparts r (by simp [Tree.parts, Tree.fields])
      exact (ih hl s).bind fun left s => (ih hr s).bind fun right s =>
        (HasRoom.ofExcept op.asToken_ne_tooDeep).bind fun operator s =>
          .ofExcept (applyBinary_ne_tooDeep operator left right)
    | _ => exact .unsupported _

/-! ### Expressions that stand alone -/

/-- What is not read of a token list: the tokens from the first end marker on. -/
def unread (tokens : List Token) : List Token :=
  tokens.dropWhile fun t => t.kind ≠ .eof

theorem rest_append_unread (tokens : List Token) :
    (ParseState.ofTokens tokens).rest ++ unread tokens = tokens :=
  List.takeWhile_append_dropWhile

/-- A phrase in front of what is not read is all that is read. -/
theorem rest_phrase_unread {r : Rule} {phrase : List Token} {tree : Tree}
    (hd : Derives r phrase tree) (tokens : List Token) :
    (ParseState.ofTokens (phrase ++ unread tokens)).rest = phrase := by
  have hunread : (ParseState.ofTokens (unread tokens)).rest = [] :=
    List.takeWhile_eq_nil_iff.2 fun hl => by
      simpa [unread] using List.dropWhile_get_zero_not _ _ hl
  have hnoEnding : ∀ t ∈ phrase, t.kind ≠ .eof :=
    fun t ht heq => hd.kind_notMem_boundaries t ht (heq ▸ List.mem_cons_self)
  have happend : (ParseState.ofTokens (phrase ++ unread tokens)).rest =
      phrase ++ (ParseState.ofTokens (unread tokens)).rest :=
    List.takeWhile_append_of_pos (by simpa using hnoEnding)
  rw [happend, hunread, List.append_nil]

/-- Parentheses around the tokens of a node of an expression that stands alone: the tokens are
accepted again, unless there are more levels of nesting than there is room for, and their tree has a
grouping around the node. Evaluating that tree does what evaluating the first one does, unless it is
deeper than the room and evaluation runs out of it. -/
theorem ofTokens_regrouped {tokens : List Token} {e : Expr}
    (he : (Standalone.ofTokens tokens).result = .ok e) {start : Nat} {n tree : Tree}
    (hn : e.toTree.Regrouped start n tree) {opening closing : Token}
    (ho : opening.kind = .leftParen) (hc : closing.kind = .rightParen) :
    Derives .expression ((tokens.drop start).take n.width) n ∧
    ((∃ e', (Standalone.ofTokens (enclose opening closing start n.width tokens)).result = .ok e' ∧
        e'.toTree = tree) ∨
      nestingRoom < 12 * (tree.nesting + 1) ∧
        ∃ t, (Standalone.ofTokens (enclose opening closing start n.width tokens)).result =
          .error (.diagnostic (.grammatical t .nestedTooDeeply))) ∧
    ∀ scope room s, evaluate scope room tree s = evaluate scope room e.toTree s ∨
      room < tree.depth ∧ ∃ u, evaluate scope room tree s = .error .tooDeep u := by
  obtain ⟨before, span, after, hrest, hlen, hspan, hd'⟩ :=
    derives_regrouped hn ho hc (Standalone.derives_of_result he)
  have hwidth := hspan.length_eq_width
  have htokens : tokens = before ++ (span ++ (after ++ unread tokens)) := by
    rw [← List.append_assoc span, ← List.append_assoc, ← hrest, rest_append_unread]
  refine ⟨?_, ?_, fun scope room s => ?_⟩
  · rwa [htokens, ← hlen, List.drop_left, ← hwidth, List.take_left]
  · have hread := rest_phrase_unread hd' tokens
    have haccepted := Standalone.result_of_derives (hread ▸ hd')
    rw [Rule.need_expression] at haccepted
    rw [htokens, enclose_append hlen hwidth]
    simpa using haccepted
  · rcases evaluate_regrouped hn scope room s with heq | ⟨u, hu⟩
    · exact .inl heq
    · refine .inr ⟨?_, u, hu⟩
      by_contra hle
      exact (hasRoom_evaluate scope (Nat.le_of_not_lt hle) s).error hu rfl

/-- The tokens of `a = b - c - d`. -/
def differenceTokens : List Token :=
  [⟨.identifier, "a", none, 1⟩, ⟨.equal, "=", none, 1⟩, ⟨.identifier, "b", none, 1⟩,
    ⟨.minus, "-", none, 1⟩, ⟨.identifier, "c", none, 1⟩, ⟨.minus, "-", none, 1⟩,
    ⟨.identifier, "d", none, 1⟩]

/-- With its first difference in parentheses, `a = b - c - d` is `a = (b - c) - d`, and its value is
the same. -/
theorem ofTokens_regrouped_difference :
    let name (x : String) : Token := ⟨.identifier, x, none, 1⟩
    let minus : Token := ⟨.minus, "-", none, 1⟩
    let first : Tree :=
      .binary (.reference (.token (name "b"))) (.token minus) (.reference (.token (name "c")))
    let around (t : Tree) : Tree :=
      .assign (.token (name "a")) (.binary t (.token minus) (.reference (.token (name "d"))))
    (∃ e, (Standalone.ofTokens differenceTokens).result = .ok e ∧ e.toTree = around first) ∧
    (∃ e, (Standalone.ofTokens (enclose ⟨.leftParen, "(", none, 1⟩ ⟨.rightParen, ")", none, 1⟩ 2 3
      differenceTokens)).result = .ok e ∧ e.toTree = around (.grouping first)) ∧
    evaluate globalScope nestingRoom (around (.grouping first)) (Session.start 0) =
      evaluate globalScope nestingRoom (around first) (Session.start 0) := by
  intro name minus first around
  have he : ∃ e, (Standalone.ofTokens differenceTokens).result = .ok e ∧ e.toTree = around first :=
    ⟨_, rfl, rfl⟩
  obtain ⟨e, hresult, htree⟩ := he
  have hn : e.toTree.Regrouped 2 first (around (.grouping first)) := by
    rw [htree]
    exact .value (.left (.here first))
  have hwidth : first.width = 3 := rfl
  obtain ⟨-, haccepted, hvalue⟩ := ofTokens_regrouped hresult hn
    (rfl : (⟨.leftParen, "(", none, 1⟩ : Token).kind = .leftParen)
    (rfl : (⟨.rightParen, ")", none, 1⟩ : Token).kind = .rightParen)
  rw [hwidth] at haccepted
  refine ⟨⟨e, hresult, htree⟩, ?_, ?_⟩
  · refine haccepted.resolve_right fun hdeep => ?_
    have hroom : ¬ nestingRoom < 12 * ((around (.grouping first)).nesting + 1) := by decide
    exact hroom hdeep.1
  · rcases hvalue globalScope nestingRoom (Session.start 0) with heq | ⟨hdeep, -⟩
    · rw [heq, htree]
    · have hdepth : (around (.grouping first)).depth ≤ 6 := by
        simp [around, first, Tree.depth_le_succ_iff, Tree.parts, Tree.fields]
      have hroom : 6 ≤ nestingRoom := by decide
      omega

end LoxTree
