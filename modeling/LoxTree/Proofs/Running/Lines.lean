import LoxTree.Proofs.Relabel
import LoxTree.Proofs.Running.Execution

/-!
# Lines do not matter to a running program

The lines of tokens and the numbers of nodes change nothing but the lines of complaints. The same
statement on other lines is run beside the first one, in sessions with the same scopes.

* `evaluate_lines`: an expression has the same value on other lines, or fails with the same fault on
  the line that its line is mapped to.
* `firstToken?_of_tooDeep`: a statement that runs out of room has a token, so the complaint about it
  has a line to move. A tree without tokens is made of groupings and a literal, and the parser needs
  more room for these than evaluation does.
* `Stmt.render_relabel`: the rendering of a statement, which is traced before it is executed, does
  not show its lines.
* `attempt_lines`, `executes_alongside`: what statements print is the same, and what they complain
  about is the same on other lines, at any level of tracing.
* `executes_lines`: the same for sessions that do not trace.
-/

namespace LoxTree

open Step Run

variable {g : Int → Int} {k : Nat}

/-! ### Operators and names -/

theorem applyUnary_mapLine (operator : Token) (v : Value) :
    applyUnary (operator.mapLine g) v = (applyUnary operator v).mapError (Fault.mapLine g) := by
  unfold applyUnary
  rw [Token.kind_mapLine]
  split <;> rfl

theorem applyBinary_mapLine (operator : Token) (v w : Value) :
    applyBinary (operator.mapLine g) v w =
      (applyBinary operator v w).mapError (Fault.mapLine g) := by
  unfold applyBinary
  rw [Token.kind_mapLine]
  split
  · split <;> rfl
  · rfl
  · rfl
  · split
    · split
      · split <;> rfl
      · rfl
    · rfl

theorem Forest.get_mapLine (f : Forest) (scope : Nat) (name : Token) :
    f.get scope (name.mapLine g) = (f.get scope name).mapError (Diagnostic.mapLine g) := by
  rw [Forest.get_eq, Forest.get_eq, Token.lexeme_mapLine]
  split <;> rfl

theorem Forest.assign_mapLine (f : Forest) (scope : Nat) (name : Token) (value : Value) :
    f.assign scope (name.mapLine g) value =
      (f.assign scope name value).mapError (Diagnostic.mapLine g) := by
  rw [Forest.assign_eq, Forest.assign_eq, Token.lexeme_mapLine]
  split <;> rfl

/-! ### Expressions -/

/-- Sessions with the same scopes. -/
def SameScopes (s s' : Session) : Prop :=
  s'.scopes = s.scopes

/-- Two steps from sessions with the same scopes that end with the same result or with the same
fault on other lines, and with the same scopes. -/
def AgreeLines (g : Int → Int) {α : Type} (m n : Run α) : Prop :=
  Agree SameScopes (fun a b s s' => b = a ∧ SameScopes s s')
    (fun f f' s s' => f' = f.mapLine g ∧ SameScopes s s') m n

namespace AgreeLines

variable {α β : Type} {m n : Run α}

theorem pure (a : α) : AgreeLines g (Pure.pure a : Run α) (Pure.pure a) :=
  fun _ _ h => ⟨rfl, h⟩

theorem throw {f f' : Fault} (h : f' = f.mapLine g) :
    AgreeLines g (MonadExcept.throw f : Run α) (MonadExcept.throw f') :=
  fun _ _ hs => ⟨h, hs⟩

theorem bind {l l' : α → Run β} (h : AgreeLines g m n) (hl : ∀ a, AgreeLines g (l a) (l' a)) :
    AgreeLines g (m >>= l) (n >>= l') := by
  refine Agree.bind h ?_
  rintro a b s s' ⟨rfl, hs⟩
  exact hl b s s' hs

theorem ofExcept {x y : Except Fault α} (h : y = x.mapError (Fault.mapLine g)) :
    AgreeLines g (MonadExcept.ofExcept x : Run α) (MonadExcept.ofExcept y) := by
  subst h
  cases x with
  | ok a => exact .pure a
  | error f => exact .throw rfl

end AgreeLines

theorem note_lines (level : Int) (line : String) :
    AgreeLines g (note level line) (note level line) := by
  refine Agree.of_ok fun s s' h => ?_
  obtain ⟨u, hu, -, hscopes⟩ := note_eq_ok level line s
  obtain ⟨u', hu', -, hscopes'⟩ := note_eq_ok level line s'
  exact ⟨_, _, _, _, hu, hu', rfl, hscopes'.trans (h.trans hscopes.symm)⟩

theorem readName_lines (scope : Nat) (name : Token) :
    AgreeLines g (readName scope name) (readName scope (name.mapLine g)) := by
  intro s s' h
  rw [readName_apply, readName_apply, h, Forest.get_mapLine]
  cases s.scopes.get scope name with
  | ok v => exact ⟨rfl, h⟩
  | error d => exact ⟨rfl, h⟩

theorem assignName_lines (scope : Nat) (name : Token) (value : Value) :
    AgreeLines g (assignName scope name value) (assignName scope (name.mapLine g) value) := by
  intro s s' h
  rw [assignName_apply, assignName_apply, h, Forest.assign_mapLine]
  cases s.scopes.assign scope name value with
  | ok scopes => exact ⟨rfl, rfl⟩
  | error d => exact ⟨rfl, h⟩

/-- An expression has the same value on other lines, or fails with the same fault there. -/
theorem evaluate_lines (scope room : Nat) (e : Expr) :
    AgreeLines g (evaluate scope room e.toTree) (evaluate scope room (e.relabel g k).toTree) := by
  induction room generalizing e with
  | zero => exact .throw rfl
  | succ room ih =>
    cases e with
    | literal n v =>
      show AgreeLines g (if v.isLox then Pure.pure v else MonadExcept.throw _)
        (if v.isLox then Pure.pure v else MonadExcept.throw _)
      split
      · exact .pure v
      · exact .throw rfl
    | grouping n e => exact ih e
    | unary n op e => exact (ih e).bind fun v => .ofExcept (applyUnary_mapLine op v)
    | binary n l op r =>
      exact (ih l).bind fun v => (ih r).bind fun w => .ofExcept (applyBinary_mapLine op v w)
    | reference n name => exact readName_lines scope name
    | assign n name e =>
      exact (ih e).bind fun v => (assignName_lines scope name v).bind fun _ =>
        (note_lines 2 _).bind fun _ => .pure v

/-! ### The first token -/

/-- The first token in an expression, in the order of the fields. -/
def Expr.firstToken? : Expr → Option Token
  | literal _ _ => none
  | grouping _ e => e.firstToken?
  | unary _ op _ => some op
  | binary _ l op _ => l.firstToken?.or (some op)
  | reference _ name => some name
  | assign _ name _ => some name

/-- The first token in a statement, in the order of the fields. -/
def Stmt.firstToken? : Stmt → Option Token
  | expression _ e | print _ e => e.firstToken?
  | var _ name _ => some name

theorem Expr.firstToken?_relabel (e : Expr) :
    (e.relabel g k).firstToken? = e.firstToken?.map (Token.mapLine g) := by
  induction e with
  | binary n l op r ihl _ =>
    show (l.relabel g k).firstToken?.or (some (op.mapLine g)) = _
    rw [ihl]
    show _ = (l.firstToken?.or (some op)).map (Token.mapLine g)
    cases l.firstToken? <;> rfl
  | grouping n e ih => exact ih
  | _ => rfl

theorem Stmt.firstToken?_relabel (stmt : Stmt) :
    (stmt.relabel g k).firstToken? = stmt.firstToken?.map (Token.mapLine g) := by
  cases stmt with
  | expression n e => exact e.firstToken?_relabel
  | print n e => exact e.firstToken?_relabel
  | var n name e => rfl

namespace Tree

theorem firstLineOf_token (t : Token) (rest : List Tree) :
    firstLineOf (token t :: rest) = t.line := by
  rw [firstLineOf]

/-- The search goes into a tree that is no token. -/
theorem firstLineOf_parts {t : Tree} (h : ∀ tok, t ≠ token tok) (rest : List Tree) :
    firstLineOf (t :: rest) = firstLineOf (t.parts ++ rest) :=
  firstLineOf.eq_3 t rest h

/-- The line of the first token in the tree of an expression; without tokens in it the search goes
on behind it. -/
theorem firstLineOf_toTree (e : Expr) (rest : List Tree) :
    firstLineOf (e.toTree :: rest) = (e.firstToken?.map Token.line).getD (firstLineOf rest) := by
  induction e generalizing rest with
  | literal n v =>
    show firstLineOf (literal v :: rest) = _
    rw [firstLineOf_parts (by simp)]
    rfl
  | grouping n e ih =>
    show firstLineOf (grouping e.toTree :: rest) = _
    rw [firstLineOf_parts (by simp)]
    exact ih rest
  | unary n op e ih =>
    show firstLineOf (unary (token op) e.toTree :: rest) = _
    rw [firstLineOf_parts (by simp)]
    exact firstLineOf_token op _
  | binary n l op r ihl ihr =>
    show firstLineOf (binary l.toTree (token op) r.toTree :: rest) = _
    rw [firstLineOf_parts (by simp)]
    -- the operator stops a search that finds nothing in the left operand
    show firstLineOf (l.toTree :: token op :: ([r.toTree] ++ rest)) = _
    rw [ihl, firstLineOf_token]
    show _ = ((l.firstToken?.or (some op)).map Token.line).getD _
    cases l.firstToken? <;> rfl
  | reference n name =>
    show firstLineOf (reference (token name) :: rest) = _
    rw [firstLineOf_parts (by simp)]
    exact firstLineOf_token name _
  | assign n name e ih =>
    show firstLineOf (assign (token name) e.toTree :: rest) = _
    rw [firstLineOf_parts (by simp)]
    exact firstLineOf_token name _

theorem firstLine_toTree (stmt : Stmt) :
    stmt.toTree.firstLine = (stmt.firstToken?.map Token.line).getD 0 := by
  unfold firstLine
  cases stmt with
  | expression n e =>
    show firstLineOf [expressionStmt e.toTree] = _
    rw [firstLineOf_parts (by simp)]
    show firstLineOf [e.toTree] = _
    rw [firstLineOf_toTree, firstLineOf.eq_1]
    rfl
  | print n e =>
    show firstLineOf [printStmt e.toTree] = _
    rw [firstLineOf_parts (by simp)]
    show firstLineOf [e.toTree] = _
    rw [firstLineOf_toTree, firstLineOf.eq_1]
    rfl
  | var n name e =>
    cases e with
    | none =>
      show firstLineOf [varDecl (token name) missing] = _
      rw [firstLineOf_parts (by simp)]
      exact firstLineOf_token name _
    | some e =>
      show firstLineOf [varDecl (token name) e.toTree] = _
      rw [firstLineOf_parts (by simp)]
      exact firstLineOf_token name _

end Tree

/-! ### Running out of room -/

/-- A step that does not run out of room. -/
def HasRoom {α : Type} (m : Run α) (s : Session) : Prop :=
  Ensures m s (fun _ _ => True) (fun f _ => f ≠ .tooDeep)

/-- An expression without tokens is evaluated in the room in which it was parsed. -/
theorem Expr.Made.hasRoom {tokens : List Token} {room : Nat} {e : Expr} (h : e.Made tokens room)
    (hnone : e.firstToken? = none) {room' : Nat} (hle : room ≤ room') (scope : Nat) (s : Session) :
    HasRoom (evaluate scope room' e.toTree) s := by
  -- by the ways to make the expression: every other one leaves a token in it
  induction h generalizing room' with
  | @literal room n t v =>
    obtain ⟨r, rfl⟩ : ∃ r, room' = r + 1 := ⟨room' - 1, by omega⟩
    show HasRoom (if v.isLox then Pure.pure v else MonadExcept.throw _) s
    split
    · exact Ensures.pure trivial
    · exact Ensures.throw nofun
  | @grouping room n e _ ih =>
    obtain ⟨r, rfl⟩ : ∃ r, room' = r + 1 := ⟨room' - 1, by omega⟩
    exact ih hnone (Nat.le_of_succ_le_succ hle)
  | @binary room n op l r =>
    have hsome : l.firstToken?.or (some op) ≠ none := by simp
    exact absurd hnone hsome
  | more _ ih => exact ih hnone (Nat.le_of_succ_le hle)
  | _ => cases hnone

theorem noteStatement_quiet {s : Session} (h : s.level ≤ 0) (t : Tree) :
    noteStatement t s = .ok () s := by
  rw [noteStatement_apply, if_neg (by omega)]
  rfl

/-- A statement that runs out of room has a token. -/
theorem firstToken?_of_tooDeep {tokens : List Token} {stmt : Stmt}
    (h : stmt.Made tokens nestingRoom) {s u : Session} (hq : s.level ≤ 0) {scope : Nat}
    (hexec : execute scope stmt.toTree s = .error .tooDeep u) : stmt.firstToken? ≠ none := by
  intro hnone
  have hroom : HasRoom (execute scope stmt.toTree) s := by
    unfold execute
    refine Ensures.bind (.of_ok (noteStatement_quiet hq _) ?_)
    cases h with
    | expression he => exact Ensures.map (he.hasRoom hnone (Nat.le_refl _) scope s)
    | print he =>
      have hev := he.hasRoom hnone (Nat.le_refl _) scope s
      exact Ensures.bind (hev.mono (fun _ _ _ => trivial) fun _ _ => id)
    | declare => cases hnone
    | declareAs => cases hnone
  exact hroom.error hexec rfl

/-! ### Rendering -/

/-- Parts of renderings that are the same text, or trees with the same rendering. -/
inductive RenderPart.Alike : RenderPart → RenderPart → Prop
  | text (s : String) : Alike (.text s) (.text s)
  | tree {t t' : Tree} (h : ∀ room, t'.render room = t.render room) : Alike (.tree t) (.tree t')

/-- Trees with the same heading and parts that are rendered alike have the same rendering. -/
theorem Tree.render_of_parens {t t' : Tree} {heading : String} {parts parts' : List RenderPart}
    (h : t.outline = .ok (.parens heading parts)) (h' : t'.outline = .ok (.parens heading parts'))
    (hparts : List.Forall₂ RenderPart.Alike parts parts') (room : Nat) :
    t'.render room = t.render room := by
  match room with
  | 0 | 1 | 2 => rfl
  | room + 3 =>
    rw [render.eq_1, render.eq_1, h, h']
    let finish (texts : List String) : Except Fault String :=
      pure ("(" ++ " ".intercalate (heading :: texts) ++ ")")
    refine congrArg (· >>= finish) ?_
    clear h h'
    induction hparts with
    | nil => rfl
    | cons hpart _ ih =>
      rw [List.mapM_cons, List.mapM_cons, ih]
      cases hpart with
      | text => rfl
      | tree hrender => simp only [hrender]

/-- The rendering of an expression does not show its lines. -/
theorem Expr.render_relabel (e : Expr) (room : Nat) :
    (e.relabel g k).toTree.render room = e.toTree.render room := by
  induction e generalizing room with
  | literal => rfl
  | grouping n e ih => exact Tree.render_of_parens rfl rfl (.cons (.tree ih) .nil) room
  | unary n op e ih => exact Tree.render_of_parens rfl rfl (.cons (.tree ih) .nil) room
  | binary n l op r ihl ihr =>
    exact Tree.render_of_parens rfl rfl (.cons (.tree ihl) (.cons (.tree ihr) .nil)) room
  | reference =>
    match room with
    | 0 | 1 | 2 => rfl
    | room + 3 => rfl
  | assign n name e ih =>
    exact Tree.render_of_parens rfl rfl (.cons (.text _) (.cons (.tree ih) .nil)) room

/-- The rendering of a statement does not show its lines. -/
theorem Stmt.render_relabel (stmt : Stmt) (room : Nat) :
    (stmt.relabel g k).toTree.render room = stmt.toTree.render room := by
  cases stmt with
  | expression n e =>
    exact Tree.render_of_parens rfl rfl (.cons (.tree e.render_relabel) .nil) room
  | print n e => exact Tree.render_of_parens rfl rfl (.cons (.tree e.render_relabel) .nil) room
  | var n name e =>
    cases e with
    | none => exact Tree.render_of_parens rfl rfl (.cons (.text _) .nil) room
    | some e =>
      have hparts : List.Forall₂ RenderPart.Alike [.text name.lexeme, .tree e.toTree]
          [.text name.lexeme, .tree (e.relabel g k).toTree] :=
        .cons (.text _) (.cons (.tree e.render_relabel) .nil)
      -- an initial value is rendered unless it is missing, and an expression is not
      cases e <;> exact Tree.render_of_parens rfl rfl hparts room

/-! ### What is said -/

/-- A line of the output: one that a statement prints, or a complaint about a statement. -/
inductive Said where
  | printed (line : String)
  | reported (d : Diagnostic)

namespace Said

/-- The text of a line. -/
def text : Said → String
  | printed line => line
  | reported d => d.text

/-- The complaint that a line is. -/
def complaint? : Said → Option Diagnostic
  | printed _ => none
  | reported d => some d

/-- The line with its complaint moved. -/
def mapLine (g : Int → Int) : Said → Said
  | printed line => printed line
  | reported d => reported (d.mapLine g)

end Said

/-- The output that lines make up. -/
def written : List Said → String
  | [] => ""
  | said :: rest => said.text ++ "\n" ++ written rest

/-- The complaints among lines. -/
def complaints (log : List Said) : List Diagnostic :=
  log.filterMap Said.complaint?

theorem written_append (log log' : List Said) :
    written (log ++ log') = written log ++ written log' := by
  induction log with
  | nil => exact (String.empty_append).symm
  | cons said rest ih => rw [List.cons_append, written, written, ih, ← String.append_assoc]

theorem written_singleton (said : Said) : written [said] = said.text ++ "\n" :=
  String.append_empty

theorem output_say (s : Session) (said : Said) :
    (s.say said.text).output = s.output ++ written [said] := by
  rw [written_singleton, ← String.append_assoc]
  rfl

/-- Reporting complaints writes them to the output. -/
theorem reportAll_eq (errors : List Diagnostic) (s : Session) :
    reportAll errors s =
      .ok () { s with output := s.output ++ written (errors.map .reported) } := by
  induction errors generalizing s with
  | nil =>
    show EStateM.Result.ok () s = .ok () { s with output := s.output ++ "" }
    rw [String.append_empty]
  | cons d rest ih =>
    show reportAll rest (s.say (Said.reported d).text) = _
    rw [ih, output_say, String.append_assoc, ← written_append]
    rfl

/-- Sessions at the given levels of tracing, with the same scopes and the given outputs. -/
structure Alongside (level level' : Int) (out out' : String) (s s' : Session) : Prop where
  scopes : s'.scopes = s.scopes
  output : s.output = out
  output' : s'.output = out'
  level : s.level = level
  level' : s'.level = level'

namespace Alongside

variable {l l' : Int} {out out' : String} {s s' u u' : Session}

theorem silent (h : Alongside l l' out out' s s') (hs : s.Silent u) (hs' : s'.Silent u')
    (hscopes : u'.scopes = u.scopes) : Alongside l l' out out' u u' :=
  ⟨hscopes, hs.output.trans h.output, hs'.output.trans h.output', hs.level.trans h.level,
    hs'.level.trans h.level'⟩

theorem say (h : Alongside l l' out out' s s') (said said' : Said) :
    Alongside l l' (out ++ written [said]) (out' ++ written [said']) (s.say said.text)
      (s'.say said'.text) := by
  refine ⟨h.scopes, ?_, ?_, h.level, h.level'⟩
  · rw [output_say, h.output]
  · rw [output_say, h.output']

end Alongside

/-- Levels at which the same is traced: one level, or two at which nothing is. -/
def SameTracing (l l' : Int) : Prop :=
  l' = l ∨ l ≤ 0 ∧ l' ≤ 0

section

variable {l l' : Int} (out out' : String)

/-- Evaluation says nothing. -/
theorem evaluate_alongside (scope room : Nat) (e : Expr) :
    Agree (Alongside l l' out out') (fun v v' s s' => v' = v ∧ Alongside l l' out out' s s')
      (fun f f' s s' => f' = f.mapLine g ∧ Alongside l l' out out' s s')
      (evaluate scope room e.toTree) (evaluate scope room (e.relabel g k).toTree) := by
  intro s s' h
  -- the outputs stay as they are, and `evaluate_lines` is about the scopes
  have hsilent := silentRun_evaluate scope room e.toTree s
  have hsilent' := silentRun_evaluate scope room (e.relabel g k).toTree s'
  cases hm : evaluate scope room e.toTree s with
  | ok v u =>
    obtain ⟨v', u', hn, rfl, hscopes⟩ := (evaluate_lines scope room e).ok h.scopes hm
    rw [hn]
    exact ⟨rfl, h.silent (hsilent.ok hm) (hsilent'.ok hn) hscopes⟩
  | error f u =>
    obtain ⟨f', u', hn, rfl, hscopes⟩ := (evaluate_lines scope room e).error h.scopes hm
    rw [hn]
    exact ⟨rfl, h.silent (hsilent.error hm) (hsilent'.error hn) hscopes⟩

theorem note_alongside (level : Int) (line : String) :
    Agree (Alongside l l' out out') (fun _ _ s s' => Alongside l l' out out' s s')
      (fun f f' s s' => f' = f.mapLine g ∧ Alongside l l' out out' s s') (note level line)
      (note level line) := by
  refine Agree.of_ok fun s s' h => ?_
  obtain ⟨u, hu, hsilent, hscopes⟩ := note_eq_ok level line s
  obtain ⟨u', hu', hsilent', hscopes'⟩ := note_eq_ok level line s'
  exact ⟨_, _, _, _, hu, hu',
    h.silent hsilent hsilent' (hscopes'.trans (h.scopes.trans hscopes.symm))⟩

/-- A statement is traced before it is executed; its rendering may run out of room. -/
theorem noteStatement_alongside (htracing : SameTracing l l') {stmt : Stmt}
    (hrenders : stmt.toTree.Renders) :
    Agree (Alongside l l' out out') (fun _ _ s s' => Alongside l l' out out' s s')
      (fun f f' s s' => f' = f.mapLine g ∧ Alongside l l' out out' s s')
      (noteStatement stmt.toTree) (noteStatement (stmt.relabel g k).toTree) := by
  intro s s' h
  rw [noteStatement_apply, noteStatement_apply, h.level, h.level']
  by_cases hl : 3 ≤ l
  · obtain rfl : l' = l := htracing.resolve_right fun hq => by omega
    rw [if_pos hl, if_pos hl, Stmt.render_relabel]
    cases hr : stmt.toTree.render nestingRoom with
    | ok text => exact note_alongside (g := g) out out' 3 ("execute " ++ text) s s' h
    | error f =>
      rw [hrenders nestingRoom f hr]
      exact ⟨rfl, h⟩
  · have hl' : ¬ 3 ≤ l' := by
      rcases htracing with rfl | ⟨-, hq⟩ <;> omega
    rw [if_neg hl, if_neg hl']
    exact h

end

/-! ### Statements -/

/-- A statement says the same on other lines, unless it fails. -/
abbrev AgreeStatement (g : Int → Int) (l l' : Int) (out out' : String) (m n : Run Unit) : Prop :=
  Agree (Alongside l l' out out')
    (fun _ _ s s' => ∃ lines : List String, Alongside l l' (out ++ written (lines.map .printed))
      (out' ++ written (lines.map .printed)) s s')
    (fun f f' s s' => f' = f.mapLine g ∧ Alongside l l' out out' s s') m n

theorem Alongside.nothing {l l' : Int} {out out' : String} {s s' : Session}
    (h : Alongside l l' out out' s s') :
    ∃ lines : List String, Alongside l l' (out ++ written (lines.map .printed))
      (out' ++ written (lines.map .printed)) s s' := by
  refine ⟨[], ?_⟩
  rwa [List.map_nil, written, String.append_empty, String.append_empty]

theorem define_lines {l l' : Int} (out out' : String) (scope : Nat) (name : Token)
    (value : Value) :
    AgreeStatement g l l' out out'
      (do
        defineName scope name.lexeme value
        note 2 (bindingNote "define" name.lexeme value))
      (do
        defineName scope name.lexeme value
        note 2 (bindingNote "define" name.lexeme value)) := by
  have hdefine : Agree (Alongside l l' out out') (fun _ _ s s' => Alongside l l' out out' s s')
      (fun f f' s s' => f' = f.mapLine g ∧ Alongside l l' out out' s s')
      (defineName scope name.lexeme value) (defineName scope name.lexeme value) := by
    intro s s' h
    refine h.silent (s.silent_scopes _) (s'.silent_scopes _) ?_
    show s'.scopes.define scope name.lexeme value = s.scopes.define scope name.lexeme value
    rw [h.scopes]
  refine Agree.bind hdefine fun _ _ => ?_
  refine Agree.mono (note_alongside out out' 2 _) (fun _ _ h => h) fun _ _ s s' h => ?_
  exact Alongside.nothing h

theorem initialValue_toTree (scope : Nat) (e : Expr) :
    initialValue scope e.toTree = evaluate scope nestingRoom e.toTree := by
  cases e <;> rfl

/-- A statement does the same on other lines. -/
theorem execute_lines {l l' : Int} (htracing : SameTracing l l') (out out' : String) (scope : Nat)
    {stmt : Stmt} (hrenders : stmt.toTree.Renders) :
    AgreeStatement g l l' out out' (execute scope stmt.toTree)
      (execute scope (stmt.relabel g k).toTree) := by
  refine Agree.bind (noteStatement_alongside out out' htracing hrenders) fun _ _ => ?_
  cases stmt with
  | expression n e =>
    refine Agree.map (Agree.mono (evaluate_alongside out out' scope nestingRoom e)
      (fun _ _ h => h) fun _ _ s s' h => ?_)
    exact Alongside.nothing h.2
  | print n e =>
    refine Agree.bind (evaluate_alongside out out' scope nestingRoom e) ?_
    rintro _ v s s' ⟨rfl, h⟩
    exact ⟨[v.display], h.say (.printed v.display) (.printed v.display)⟩
  | var n name e =>
    cases e with
    | none => exact define_lines out out' scope name .nil
    | some e =>
      have hagree : AgreeStatement g l l' out out'
          (do
            let value ← initialValue scope e.toTree
            defineName scope name.lexeme value
            note 2 (bindingNote "define" name.lexeme value))
          (do
            let value ← initialValue scope (e.relabel g k).toTree
            defineName scope name.lexeme value
            note 2 (bindingNote "define" name.lexeme value)) := by
        rw [initialValue_toTree, initialValue_toTree]
        refine Agree.bind (evaluate_alongside out out' scope nestingRoom e) ?_
        rintro _ v s s' ⟨rfl, h⟩
        exact define_lines (g := g) out out' scope name v s s' h
      exact hagree

/-- A complaint moves with its token, or with the first token if the room ran out. Without a token
it has no line, which is line zero. -/
theorem complaintOf?_relabel {stmt : Stmt} {f : Fault}
    (h : f = .tooDeep → stmt.firstToken? = none → g 0 = 0) :
    complaintOf? (stmt.relabel g k).toTree (f.mapLine g) =
      (complaintOf? stmt.toTree f).map (Diagnostic.mapLine g) := by
  cases f with
  | tooDeep =>
    show some _ = some _
    rw [Tree.firstLine_toTree, Tree.firstLine_toTree, Stmt.firstToken?_relabel]
    cases hfirst : stmt.firstToken? with
    | some t => rfl
    | none =>
      show some (Diagnostic.runtime none _ 0) = some (Diagnostic.runtime none _ (g 0))
      rw [h rfl hfirst]
  | _ => rfl

/-- An attempt at a statement prints the same on other lines, and its complaint moves. -/
theorem attempt_lines {l l' : Int} (htracing : SameTracing l l') (hline : g 0 = 0 ∨ l ≤ 0)
    {tokens : List Token} {stmt : Stmt} (hmade : stmt.Made tokens nestingRoom)
    (hscanned : ∀ t ∈ tokens, t.Scanned) (scope : Nat) {out out' : String} {s s' : Session}
    (h : Alongside l l' out out' s s') :
    ∃ o u u' log, attempt scope stmt.toTree s = .ok o u ∧
      attempt scope (stmt.relabel g k).toTree s' = .ok (o.map (Diagnostic.mapLine g)) u' ∧
      Alongside l l' (out ++ written log) (out' ++ written (log.map (Said.mapLine g))) u u' ∧
      complaints log = o.toList := by
  have hstmt := hmade.isStatement hscanned
  have hexec := execute_lines (g := g) (k := k) htracing out out' scope hstmt.renders
  cases hs : execute scope stmt.toTree s with
  | ok _ u =>
    obtain ⟨_, u', hs', lines, hb⟩ := hexec.ok h hs
    refine ⟨none, u, u', lines.map .printed, attempt_of_ok hs, attempt_of_ok hs', ?_, ?_⟩
    · rw [List.map_map]
      exact hb
    · unfold complaints
      rw [List.filterMap_map]
      exact List.filterMap_eq_nil_iff.2 fun _ _ => rfl
  | error f u =>
    obtain ⟨_, u', hs', rfl, hb⟩ := hexec.error h hs
    have hf : f.OfRun := ((execute_safe hstmt scope s).error hs).2
    obtain ⟨d, hd, -⟩ := hf.complaint stmt.toTree
    have hd' : complaintOf? (stmt.relabel g k).toTree (f.mapLine g) = some (d.mapLine g) := by
      rw [complaintOf?_relabel, hd]
      · rfl
      · rintro rfl hnone
        exact hline.resolve_right fun hq =>
          firstToken?_of_tooDeep hmade (h.level ▸ hq) hs hnone
    obtain ⟨v, hsilent, hscopes, ha⟩ := attempt_of_error hs hd
    obtain ⟨v', hsilent', hscopes', ha'⟩ := attempt_of_error hs' hd'
    have hv : Alongside l l' out out' v v' :=
      hb.silent hsilent hsilent' (hscopes'.trans (hb.scopes.trans hscopes.symm))
    have hsaid := hv.say (.reported d) (.reported (d.mapLine g))
    exact ⟨some d, _, _, [.reported d], ha, ha', hsaid, rfl⟩

/-- Attempts at statements in turn print the same on other lines, and their complaints move. -/
theorem executes_alongside {l l' : Int} (htracing : SameTracing l l') (hline : g 0 = 0 ∨ l ≤ 0)
    {tokens : List Token} {stmts : List Stmt}
    (hmade : ∀ stmt ∈ stmts, stmt.Made tokens nestingRoom) (hscanned : ∀ t ∈ tokens, t.Scanned)
    (scope : Nat) {out out' : String} {s s' : Session} (h : Alongside l l' out out' s s') :
    ∃ outcomes u u' log, Executes scope s (stmts.map Stmt.toTree) outcomes u ∧
      Executes scope s' (stmts.map fun stmt => (stmt.relabel g k).toTree)
        (outcomes.map (Option.map (Diagnostic.mapLine g))) u' ∧
      Alongside l l' (out ++ written log) (out' ++ written (log.map (Said.mapLine g))) u u' ∧
      complaints log = outcomes.reduceOption := by
  induction stmts generalizing s s' out out' with
  | nil =>
    refine ⟨[], s, s', [], .nil s, .nil s', ?_, rfl⟩
    rwa [List.map_nil, written, String.append_empty, String.append_empty]
  | cons stmt rest ih =>
    obtain ⟨o, u, u', log, ha, ha', hb, hlog⟩ := attempt_lines (g := g) (k := k) htracing hline
      (hmade stmt List.mem_cons_self) hscanned scope h
    obtain ⟨outcomes, v, v', log', he, he', hb', hlog'⟩ :=
      ih (fun stmt hmem => hmade stmt (List.mem_cons_of_mem _ hmem)) hb
    refine ⟨o :: outcomes, v, v', log ++ log', .cons ha he, .cons ha' he', ?_, ?_⟩
    · rw [List.map_append, written_append, written_append, ← String.append_assoc,
        ← String.append_assoc]
      exact hb'
    · have happend : complaints (log ++ log') = complaints log ++ complaints log' :=
        List.filterMap_append
      rw [happend, hlog, hlog']
      cases o <;> rfl

/-- Sessions that do not trace, with the same scopes and the given outputs. -/
structure Beside (out out' : String) (s s' : Session) : Prop where
  scopes : s'.scopes = s.scopes
  output : s.output = out
  output' : s'.output = out'
  quiet : s.level ≤ 0
  quiet' : s'.level ≤ 0

/-- Attempts at statements in sessions that do not trace. -/
theorem executes_lines {tokens : List Token} {stmts : List Stmt}
    (hmade : ∀ stmt ∈ stmts, stmt.Made tokens nestingRoom) (hscanned : ∀ t ∈ tokens, t.Scanned)
    (scope : Nat) {out out' : String} {s s' : Session} (h : Beside out out' s s') :
    ∃ outcomes u u' log, Executes scope s (stmts.map Stmt.toTree) outcomes u ∧
      Executes scope s' (stmts.map fun stmt => (stmt.relabel g k).toTree)
        (outcomes.map (Option.map (Diagnostic.mapLine g))) u' ∧
      Beside (out ++ written log) (out' ++ written (log.map (Said.mapLine g))) u u' ∧
      complaints log = outcomes.reduceOption := by
  have halong : Alongside s.level s'.level out out' s s' :=
    ⟨h.scopes, h.output, h.output', rfl, rfl⟩
  obtain ⟨outcomes, u, u', log, he, he', hu, hlog⟩ := executes_alongside (g := g) (k := k)
    (.inr ⟨h.quiet, h.quiet'⟩) (.inr h.quiet) hmade hscanned scope halong
  exact ⟨outcomes, u, u', log, he, he', ⟨hu.scopes, hu.output, hu.output', hu.level ▸ h.quiet,
    hu.level' ▸ h.quiet'⟩, hlog⟩

end LoxTree
