import LoxTree.Proofs.Encoding.Trees
import LoxTree.Proofs.Number.Positional
import LoxTree.Proofs.Parsing.Trees
import LoxTree.Proofs.Running.Lines
import LoxTree.Proofs.Scanning.Partition

/-!
# Trees come back from their rendering

The rendering of a statement of a source text can be read in one way only. A rendering is an atom or
a heading with one or two parts between parentheses (`Form`), and both where a part ends and what it
stands for can be seen from its characters: a name starts with a letter, a number with a digit or
its sign, a string with a quote, and the words for truth values and nil are no names.

* `Form.Proper.unique`: a text falls into forms in one way only.
* `Form.expression`, `Form.statement`: the tree that a form stands for.
* `Expr.Made.reads_form`, `Stmt.Made.reads_form`: it is the tree whose rendering the form is, except
  for the lines.
* `render_determines_tree`: renderings are equal exactly if trees are equal but for their lines.
-/

namespace LoxTree

open Segment Number

/-! ### Forms -/

/-- A rendering with its parts. -/
inductive Form where
  | atom (text : List Char)
  | one (heading : List Char) (part : Form)
  | two (heading : List Char) (left right : Form)

namespace Form

/-- The characters of a rendering. -/
def text : Form → List Char
  | atom cs => cs
  | one heading part => '(' :: (heading ++ ' ' :: (part.text ++ [')']))
  | two heading left right =>
    '(' :: (heading ++ ' ' :: (left.text ++ ' ' :: (right.text ++ [')'])))

/-- The characters that part a rendering. -/
def marks : List Char :=
  [' ', '(', ')', '"']

/-- Texts of atoms: without marks, or between quotes. -/
inductive IsAtom : List Char → Prop
  | bare {cs : List Char} : cs ≠ [] → (∀ c ∈ cs, c ∉ marks) → IsAtom cs
  | quoted {body : List Char} : '"' ∉ body → IsAtom ('"' :: (body ++ ['"']))

/-- Forms whose atoms and headings can be told apart from what stands around them. -/
inductive Proper : Form → Prop
  | atom {cs : List Char} : IsAtom cs → Proper (.atom cs)
  | one {heading : List Char} {part : Form} : ' ' ∉ heading → Proper part →
    Proper (.one heading part)
  | two {heading : List Char} {left right : Form} : ' ' ∉ heading → Proper left → Proper right →
    Proper (.two heading left right)

/-- What may stand behind a part: nothing, a space or a closing parenthesis. -/
def Ends (rest : List Char) : Prop :=
  ∀ c ∈ rest.head?, c = ' ' ∨ c = ')'

theorem ends_nil : Ends [] := by
  intro c hc
  cases hc

theorem ends_space (rest : List Char) : Ends (' ' :: rest) := by
  intro c hc
  cases hc
  exact .inl rfl

theorem ends_closing (rest : List Char) : Ends (')' :: rest) := by
  intro c hc
  cases hc
  exact .inr rfl

/-! ### Unique reading -/

/-- Characters of a class, up to one that is not of it. -/
theorem span_unique {p : Char → Bool} {cs cs' rest rest' : List Char}
    (h : ∀ c ∈ cs, p c = true) (h' : ∀ c ∈ cs', p c = true) (hrest : ∀ c ∈ rest.head?, p c = false)
    (hrest' : ∀ c ∈ rest'.head?, p c = false) (heq : cs ++ rest = cs' ++ rest') :
    cs = cs' ∧ rest = rest' := by
  have hcs := congrArg (List.takeWhile p) heq
  rw [takeWhile_append_of_stop h hrest, takeWhile_append_of_stop h' hrest'] at hcs
  subst hcs
  exact ⟨rfl, List.append_cancel_left heq⟩

/-- A text goes up to the first of the given marks. -/
theorem mark_unique {mark : Char} {cs cs' rest rest' : List Char} (h : mark ∉ cs) (h' : mark ∉ cs')
    (heq : cs ++ mark :: rest = cs' ++ mark :: rest') : cs = cs' ∧ rest = rest' := by
  have hne : ∀ {cs : List Char}, mark ∉ cs → ∀ c ∈ cs, (c != mark) = true := by
    intro cs hcs c hc
    have hcm : c ≠ mark := fun heq => hcs (heq ▸ hc)
    simpa using hcm
  obtain ⟨rfl, hrest⟩ := span_unique (hne h) (hne h') (by simp) (by simp) heq
  exact ⟨rfl, (List.cons.inj hrest).2⟩

theorem Ends.mark {rest : List Char} (h : Ends rest) :
    ∀ c ∈ rest.head?, decide (c ∉ marks) = false := by
  intro c hc
  rcases h c hc with rfl | rfl <;> decide

theorem IsAtom.head_ne {cs : List Char} (h : IsAtom cs) : ∃ c rest, cs = c :: rest ∧ c ≠ '(' := by
  cases h with
  | bare hne hbare =>
    obtain ⟨c, rest, rfl⟩ := List.exists_cons_of_ne_nil hne
    refine ⟨c, rest, rfl, ?_⟩
    rintro rfl
    exact hbare _ List.mem_cons_self (by decide)
  | quoted => exact ⟨_, _, rfl, by decide⟩

/-- An atom without marks does not start with a quote. -/
theorem bare_ne_quoted {cs rest rest' : List Char} (hne : cs ≠ []) (h : ∀ c ∈ cs, c ∉ marks) :
    cs ++ rest ≠ '"' :: rest' := by
  obtain ⟨c, cs, rfl⟩ := List.exists_cons_of_ne_nil hne
  intro heq
  cases heq
  exact h '"' List.mem_cons_self (by decide)

theorem IsAtom.unique {cs cs' rest rest' : List Char} (h : IsAtom cs) (h' : IsAtom cs')
    (hrest : Ends rest) (hrest' : Ends rest') (heq : cs ++ rest = cs' ++ rest') :
    cs = cs' ∧ rest = rest' := by
  cases h with
  | bare hne hbare =>
    cases h' with
    | bare _ hbare' =>
      exact span_unique (by simpa using hbare) (by simpa using hbare') hrest.mark hrest'.mark heq
    | quoted => exact absurd heq (bare_ne_quoted hne hbare)
  | @quoted body hbody =>
    cases h' with
    | bare hne' hbare' => exact absurd heq.symm (bare_ne_quoted hne' hbare')
    | @quoted body' hbody' =>
      have heq : body ++ '"' :: rest = body' ++ '"' :: rest' := by simpa using heq
      obtain ⟨rfl, rfl⟩ := mark_unique hbody hbody' heq
      exact ⟨rfl, rfl⟩

section

variable (heading : List Char) (part left right : Form) (rest : List Char)

theorem text_one_append :
    (one heading part).text ++ rest =
      '(' :: (heading ++ ' ' :: (part.text ++ ')' :: rest)) := by
  simp [text]

theorem text_two_append :
    (two heading left right).text ++ rest =
      '(' :: (heading ++ ' ' :: (left.text ++ ' ' :: (right.text ++ ')' :: rest))) := by
  simp [text]

end

/-- An atom does not start with a parenthesis. -/
theorem IsAtom.append_ne {cs rest rest' : List Char} (h : IsAtom cs) :
    cs ++ rest ≠ '(' :: rest' := by
  obtain ⟨c, cs, rfl, hne⟩ := h.head_ne
  intro heq
  exact hne (List.cons.inj heq).1

/-- A text falls into forms in one way only, whatever stands behind them. -/
theorem Proper.unique {f f' : Form} (h : f.Proper) (h' : f'.Proper) {rest rest' : List Char}
    (hrest : Ends rest) (hrest' : Ends rest') (heq : f.text ++ rest = f'.text ++ rest') :
    f = f' ∧ rest = rest' := by
  induction h generalizing f' rest rest' with
  | atom ha =>
    cases h' with
    | atom ha' =>
      obtain ⟨rfl, rfl⟩ := ha.unique ha' hrest hrest' heq
      exact ⟨rfl, rfl⟩
    | one => exact absurd (heq.trans (text_one_append _ _ _)) ha.append_ne
    | two => exact absurd (heq.trans (text_two_append _ _ _ _)) ha.append_ne
  | one hh _ ih =>
    rw [text_one_append] at heq
    cases h' with
    | atom ha' => exact absurd heq.symm ha'.append_ne
    | one hh' hpart' =>
      rw [text_one_append] at heq
      obtain ⟨rfl, hparts⟩ := mark_unique hh hh' (List.cons.inj heq).2
      obtain ⟨rfl, hclosing⟩ := ih hpart' (ends_closing _) (ends_closing _) hparts
      exact ⟨rfl, (List.cons.inj hclosing).2⟩
    | two hh' hleft' =>
      -- one part is followed by a parenthesis, the first of two by a space
      rw [text_two_append] at heq
      obtain ⟨rfl, hparts⟩ := mark_unique hh hh' (List.cons.inj heq).2
      obtain ⟨-, hmark⟩ := ih hleft' (ends_closing _) (ends_space _) hparts
      cases hmark
  | two hh _ _ ihl ihr =>
    rw [text_two_append] at heq
    cases h' with
    | atom ha' => exact absurd heq.symm ha'.append_ne
    | one hh' hpart' =>
      rw [text_one_append] at heq
      obtain ⟨rfl, hparts⟩ := mark_unique hh hh' (List.cons.inj heq).2
      obtain ⟨-, hmark⟩ := ihl hpart' (ends_space _) (ends_closing _) hparts
      cases hmark
    | two hh' hleft' hright' =>
      rw [text_two_append] at heq
      obtain ⟨rfl, hparts⟩ := mark_unique hh hh' (List.cons.inj heq).2
      obtain ⟨rfl, hspace⟩ := ihl hleft' (ends_space _) (ends_space _) hparts
      obtain ⟨rfl, hclosing⟩ :=
        ihr hright' (ends_closing _) (ends_closing _) (List.cons.inj hspace).2
      exact ⟨rfl, (List.cons.inj hclosing).2⟩

/-! ### What forms stand for -/

/-- The tree of an atom, by its first character. -/
def leaf : List Char → Tree
  | [] => .missing
  | c :: rest =>
    if c = '"' then .literal (.string (String.ofList rest.dropLast))
    else if c = '-' || isDigit c then
      match readNumeral? (String.ofList (c :: rest)) with
      | some x => .literal (.number x)
      | none => .missing
    else
      match Kind.ofWord (String.ofList (c :: rest)) with
      | .kwTrue => .literal (.boolean true)
      | .kwFalse => .literal (.boolean false)
      | .kwNil => .literal .nil
      | _ => .reference (.token ⟨.identifier, String.ofList (c :: rest), none, 0⟩)

/-- The name that an atom is. -/
def name : Form → Token
  | atom cs => ⟨.identifier, String.ofList cs, none, 0⟩
  | _ => Token.eof 0

/-- The operators of expressions. -/
def operators : List Kind :=
  .bang :: infixKinds

/-- The operator with the given text. -/
def operator (heading : List Char) : Token :=
  ⟨(operators.find? fun kind => kind.spelling.toList = heading).getD .eof, String.ofList heading,
    none, 0⟩

/-- The expression that a form stands for. -/
def expression : Form → Tree
  | atom cs => leaf cs
  | one heading part =>
    if heading = "group".toList then .grouping part.expression
    else .unary (.token (operator heading)) part.expression
  | two heading left right =>
    if heading = "=".toList then .assign (.token left.name) right.expression
    else .binary left.expression (.token (operator heading)) right.expression

/-- The statement that a form stands for. -/
def statement : Form → Tree
  | atom _ => .missing
  | one heading part =>
    if heading = ";".toList then .expressionStmt part.expression
    else if heading = "print".toList then .printStmt part.expression
    else .varDecl (.token part.name) .missing
  | two _ left right => .varDecl (.token left.name) right.expression

end Form

/-! ### Forms of parsed trees -/

/-- The form of the rendering of an expression. -/
def Expr.form : Expr → Form
  | literal _ v => .atom v.literalText.toList
  | grouping _ e => .one "group".toList e.form
  | unary _ op e => .one op.lexeme.toList e.form
  | binary _ l op r => .two op.lexeme.toList l.form r.form
  | reference _ n => .atom n.lexeme.toList
  | assign _ n e => .two "=".toList (.atom n.lexeme.toList) e.form

/-- The form of the rendering of a statement. -/
def Stmt.form : Stmt → Form
  | expression _ e => .one ";".toList e.form
  | print _ e => .one "print".toList e.form
  | var _ n none => .one "var".toList (.atom n.lexeme.toList)
  | var _ n (some e) => .two "var".toList (.atom n.lexeme.toList) e.form

/-- The rendering of a tree, if there is one, is the text of the form. -/
def Tree.Spells (t : Tree) (f : Form) : Prop :=
  ∀ room text, t.render room = .ok text → text.toList = f.text

/-- The text of a part, if there is one, is the text of the form. -/
inductive RenderPart.Spells : RenderPart → Form → Prop
  | text (s : String) : Spells (.text s) (.atom s.toList)
  | tree {t : Tree} {f : Form} : t.Spells f → Spells (.tree t) f

namespace Tree

theorem spells_of_leaf {t : Tree} {s : String} (h : t.outline = .ok (.leaf s)) :
    t.Spells (.atom s.toList) := by
  intro room text hr
  match room with
  | 0 | 1 | 2 => cases hr
  | room + 3 =>
    rw [render.eq_1, h] at hr
    cases hr
    rfl

/-- The texts of the parts of a rendering are those of their forms. -/
theorem spells_of_parens {t : Tree} {heading : String} {parts : List RenderPart}
    {forms : List Form} {f : Form} (h : t.outline = .ok (.parens heading parts))
    (hparts : List.Forall₂ RenderPart.Spells parts forms)
    (hf : ∀ texts, List.Forall₂ (fun f (s : String) => s.toList = Form.text f) forms texts →
      ("(" ++ " ".intercalate (heading :: texts) ++ ")").toList = f.text) : t.Spells f := by
  intro room text hr
  match room with
  | 0 | 1 | 2 => cases hr
  | room + 3 =>
    rw [render.eq_1] at hr
    obtain ⟨outline, houtline, hparens⟩ := except_bind_eq_ok hr
    cases h.symm.trans houtline
    obtain ⟨texts, htexts, hfinish⟩ := except_bind_eq_ok hparens
    cases hfinish
    apply hf
    rw [mapM_eq_ok_iff] at htexts
    clear h hf hr houtline hparens
    induction hparts generalizing texts with
    | nil =>
      cases htexts
      exact .nil
    | cons hpart _ ih =>
      cases htexts with
      | cons hs htexts =>
        refine .cons ?_ (ih _ htexts)
        cases hpart with
        | text =>
          cases hs
          rfl
        | tree ht => exact ht _ _ hs

variable {t : Tree} {heading : String}

theorem spells_one {part : RenderPart} {f : Form} (h : t.outline = .ok (.parens heading [part]))
    (hpart : part.Spells f) : t.Spells (.one heading.toList f) := by
  refine spells_of_parens h (.cons hpart .nil) fun texts htexts => ?_
  cases htexts with
  | cons hs hnil =>
    cases hnil
    simp [String.intercalate_cons_cons, Form.text, hs]

theorem spells_two {left right : RenderPart} {f f' : Form}
    (h : t.outline = .ok (.parens heading [left, right])) (hleft : left.Spells f)
    (hright : right.Spells f') : t.Spells (.two heading.toList f f') := by
  refine spells_of_parens h (.cons hleft (.cons hright .nil)) fun texts htexts => ?_
  cases htexts with
  | cons hs htexts =>
    cases htexts with
    | cons hs' hnil =>
      cases hnil
      simp [String.intercalate_cons_cons, Form.text, hs, hs']

end Tree

theorem Expr.spells_form (e : Expr) : e.toTree.Spells e.form := by
  induction e with
  | literal => exact Tree.spells_of_leaf rfl
  | grouping _ _ ih => exact Tree.spells_one rfl (.tree ih)
  | unary _ _ _ ih => exact Tree.spells_one rfl (.tree ih)
  | binary _ _ _ _ ihl ihr => exact Tree.spells_two rfl (.tree ihl) (.tree ihr)
  | reference => exact Tree.spells_of_leaf rfl
  | assign _ _ _ ih => exact Tree.spells_two rfl (.text _) (.tree ih)

theorem Stmt.spells_form (stmt : Stmt) : stmt.toTree.Spells stmt.form := by
  cases stmt with
  | expression _ e => exact Tree.spells_one rfl (.tree e.spells_form)
  | print _ e => exact Tree.spells_one rfl (.tree e.spells_form)
  | var _ n e? =>
    cases e? with
    | none => exact Tree.spells_one rfl (.text _)
    | some e =>
      have houtline : (Tree.varDecl (.token n) e.toTree).outline =
          .ok (.parens "var" [.text n.lexeme, .tree e.toTree]) := by
        -- an initial value is rendered unless it is missing, and an expression is not
        cases e <;> rfl
      exact Tree.spells_two houtline (.text _) (.tree e.spells_form)

/-! ### Names, operators and literals -/

/-- What is known of the text of a name or an operator of the scanner. -/
structure Token.Spelled (t : Token) : Prop where
  name : t.kind = .identifier →
    t.literal = none ∧ IsWord t.lexeme.toList ∧ Kind.ofWord t.lexeme = .identifier
  operator : t.kind ∈ Form.operators → t.literal = none ∧ t.lexeme = t.kind.spelling

theorem spelled_of_fits {kind : Kind} {lexeme after : List Char} {literal : Option (List Char)}
    (h : (Segment.token kind lexeme literal).Fits after) (line : Int) :
    Token.Spelled ⟨kind, String.ofList lexeme, literal.map String.ofList, line⟩ := by
  have hwords : ∀ k ∈ Form.operators, k ∉ Kind.keywords ∧ k ≠ .identifier := by decide
  have hliterals : ∀ k ∈ Form.operators, k ≠ .number ∧ k ≠ .string := by decide
  cases h with
  | word hlongest hkind =>
    refine ⟨?_, fun hop => ?_⟩
    · rintro rfl
      refine ⟨rfl, ?_, isKindOf_iff.1 hkind⟩
      rw [String.toList_ofList]
      exact hlongest.holds
    · obtain ⟨hkeyword, hid⟩ := hwords _ hop
      rcases hkind with ⟨hmem, -⟩ | ⟨hk, -⟩
      · exact absurd hmem hkeyword
      · exact absurd hk hid
  | number => exact ⟨nofun, fun hop => absurd rfl (hliterals _ hop).1⟩
  | operator hmem =>
    refine ⟨?_, fun _ => ⟨rfl, String.ofList_toList⟩⟩
    rintro rfl
    exact absurd hmem (by decide)
  | string => exact ⟨nofun, fun hop => absurd rfl (hliterals _ hop).2⟩

theorem spelled_sourceTokens (text : String) : ∀ t ∈ sourceTokens text, t.Spelled := by
  intro t ht
  obtain ⟨⟨line, s⟩, hmem, htoken⟩ := List.mem_filterMap.1 ht
  obtain ⟨after, hfits⟩ := (partition_iff.2 rfl).fits_of_mem (mem_of_mem_placed hmem)
  cases s with
  | token kind lexeme literal =>
    cases htoken
    exact spelled_of_fits hfits line
  | _ => cases htoken

/-- A literal that can be told from its text: a string without quotes, a finite number. -/
def Value.Legible : Value → Prop
  | .string s => '"' ∉ s.toList
  | .number x => magnitude x < infinityBits
  | _ => True

namespace Form

/-- Words are atoms. -/
theorem IsAtom.of_word {cs : List Char} (h : IsWord cs) : IsAtom cs := by
  have hmarks : ∀ c ∈ marks, isWordPart c = false := by
    have hall : marks.all (fun c => !isWordPart c) = true := by decide
    simpa using hall
  cases cs with
  | nil => exact h.elim
  | cons c rest =>
    obtain ⟨hc, hrest⟩ := h
    have hpart : ∀ d ∈ c :: rest, isWordPart d = true :=
      List.forall_mem_cons.2 ⟨by simp [isWordPart, hc], hrest⟩
    refine .bare (List.cons_ne_nil _ _) fun d hd hmem => ?_
    have htrue := hpart d hd
    rw [hmarks d hmem] at htrue
    cases htrue

/-- A word that is not reserved stands for a variable. -/
theorem leaf_word {cs : List Char} (h : IsWord cs)
    (hkind : Kind.ofWord (String.ofList cs) = .identifier) :
    leaf cs = .reference (.token ⟨.identifier, String.ofList cs, none, 0⟩) := by
  cases cs with
  | nil => exact h.elim
  | cons c rest =>
    have hc : isWordStart c = true := h.1
    have hquote : c ≠ '"' := by
      rintro rfl
      revert hc
      decide
    have hminus : c ≠ '-' := by
      rintro rfl
      revert hc
      decide
    have hdigit : isDigit c ≠ true := by
      intro hd
      have hword := holds_of_isDigit (fun d => isWordStart d = false) (by decide) hd
      rw [hc] at hword
      cases hword
    rw [leaf, if_neg hquote, if_neg (by simp [hminus, hdigit]), hkind]

end Form

/-- The characters of a printed number. -/
theorem Number.printed_chars {x : Float} (hx : magnitude x < infinityBits) :
    ∃ c rest, (Value.printedNumber.write x).toList = c :: rest ∧ (c = '-' ∨ isDigit c = true) ∧
      ∀ d ∈ c :: rest, d = '-' ∨ d = '.' ∨ isDigit d = true := by
  obtain ⟨w, hw, hpower, -, hwrite⟩ := exists_printed hx
  have htext : w.text = w.whole ++ w.fractionText := by
    rw [Written.text, Written.powerText, hpower, List.append_nil]
  have hall : ∀ d ∈ w.text, d = '-' ∨ d = '.' ∨ isDigit d = true := by
    intro d hd
    rw [htext] at hd
    rcases List.mem_append.1 hd with hd | hd
    · exact .inr (.inr (hw.proper.whole d hd))
    · unfold Written.fractionText at hd
      split at hd
      · cases hd
      · rcases List.mem_cons.1 hd with rfl | hd
        · exact .inr (.inl rfl)
        · exact .inr (.inr (hw.proper.part d hd))
  obtain ⟨c, rest, hcons⟩ := List.exists_cons_of_ne_nil hw.proper.whole_ne
  have hc : isDigit c = true := hw.proper.whole c (hcons ▸ List.mem_cons_self)
  rw [hwrite, String.toList_ofList]
  cases isNegative x with
  | true => exact ⟨'-', w.text, rfl, .inl rfl, List.forall_mem_cons.2 ⟨.inl rfl, hall⟩⟩
  | false =>
    have hcons : w.text = c :: (rest ++ w.fractionText) := by
      rw [htext, hcons]
      rfl
    exact ⟨c, _, hcons, .inr hc, hcons ▸ hall⟩

namespace Form

theorem isAtom_of_printed {x : Float} (hx : magnitude x < infinityBits) :
    IsAtom (Value.printedNumber.write x).toList := by
  obtain ⟨c, rest, htext, -, hall⟩ := printed_chars hx
  rw [htext]
  refine .bare (List.cons_ne_nil _ _) fun d hd => ?_
  rcases hall d hd with rfl | rfl | hdigit
  · decide
  · decide
  · exact holds_of_isDigit (fun d => d ∉ marks) (by decide) hdigit

theorem leaf_printed {x : Float} (hx : magnitude x < infinityBits) :
    leaf (Value.printedNumber.write x).toList = .literal (.number x) := by
  have hread : readNumeral? (Value.printedNumber.write x) = some x :=
    readNumeral?_write _ 0 rfl rfl hx
  obtain ⟨c, rest, htext, hc, -⟩ := printed_chars hx
  have hquote : c ≠ '"' := by
    rcases hc with rfl | hdigit
    · decide
    · exact holds_of_isDigit (fun d => d ≠ '"') (by decide) hdigit
  rw [← String.ofList_toList (s := Value.printedNumber.write x), htext] at hread
  rw [htext, leaf, if_neg hquote, if_pos (by simpa using hc), hread]

/-- Literals are atoms that stand for themselves. -/
theorem leaf_literalText {v : Value} (hlox : v.isLox = true) (h : v.Legible) :
    IsAtom v.literalText.toList ∧ leaf v.literalText.toList = .literal v := by
  have hwords : ∀ cs ∈ [['t', 'r', 'u', 'e'], ['f', 'a', 'l', 's', 'e'], ['n', 'i', 'l']],
      IsAtom cs := by
    intro cs hcs
    refine .bare ?_ ?_
    · revert cs
      decide
    · revert cs
      simp [marks]
  cases v with
  | boolean b =>
    cases b with
    | true => exact ⟨hwords ['t', 'r', 'u', 'e'] (by simp), rfl⟩
    | false => exact ⟨hwords ['f', 'a', 'l', 's', 'e'] (by simp), rfl⟩
  | number x => exact ⟨isAtom_of_printed h, leaf_printed h⟩
  | string s =>
    have htext : (Value.string s).literalText.toList = '"' :: (s.toList ++ ['"']) := by
      simp [Value.literalText]
    rw [htext]
    refine ⟨.quoted h, ?_⟩
    rw [leaf, if_pos rfl, List.dropLast_concat, String.ofList_toList]
  | nil => exact ⟨hwords ['n', 'i', 'l'] (by simp), rfl⟩
  | _ => cases hlox

end Form

/-! ### Reading back -/

namespace Form

/-- Operators are found by their text, and no other heading of an expression has that text. -/
theorem operator_spelling {kind : Kind} (h : kind ∈ operators) :
    operator kind.spelling.toList = ⟨kind, kind.spelling, none, 0⟩ ∧
      ' ' ∉ kind.spelling.toList ∧ kind.spelling.toList ≠ "group".toList ∧
      kind.spelling.toList ≠ "=".toList := by
  have hfind : ∀ k ∈ operators,
      (operators.find? fun k' => k'.spelling.toList = k.spelling.toList).getD .eof = k := by decide
  have hspell : ∀ k ∈ operators, ' ' ∉ k.spelling.toList ∧
      k.spelling.toList ≠ "group".toList ∧ k.spelling.toList ≠ "=".toList := by decide
  refine ⟨?_, hspell kind h⟩
  rw [operator, hfind kind h, String.ofList_toList]

end Form

section

variable {tokens : List Token} {room : Nat}

theorem Token.Spelled.name_eq {t : Token} (h : t.Spelled) (hk : t.kind = .identifier) :
    Form.name (.atom t.lexeme.toList) = t.mapLine (fun _ => 0) ∧ Form.IsAtom t.lexeme.toList ∧
      Form.leaf t.lexeme.toList = .reference (.token (t.mapLine fun _ => 0)) := by
  obtain ⟨hliteral, hword, hkind⟩ := h.name hk
  have hmap : t.mapLine (fun _ => 0) = ⟨.identifier, String.ofList t.lexeme.toList, none, 0⟩ := by
    rw [Token.mapLine, hk, hliteral, String.ofList_toList]
  rw [← String.ofList_toList (s := t.lexeme)] at hkind
  rw [hmap]
  exact ⟨rfl, .of_word hword, Form.leaf_word hword hkind⟩

theorem Token.Spelled.operator_eq {t : Token} (h : t.Spelled) (hk : t.kind ∈ Form.operators) :
    Form.operator t.lexeme.toList = t.mapLine (fun _ => 0) ∧ ' ' ∉ t.lexeme.toList ∧
      t.lexeme.toList ≠ "group".toList ∧ t.lexeme.toList ≠ "=".toList := by
  obtain ⟨hliteral, hlexeme⟩ := h.operator hk
  rw [hlexeme, Token.mapLine, hliteral, hlexeme]
  exact Form.operator_spelling hk

/-- The literals of a part are legible if those of the tree are. -/
theorem legible_of_part {t part : Tree} (h : ∀ v ∈ t.literals, v.Legible) (hpart : part ∈ t.parts) :
    ∀ v ∈ part.literals, v.Legible :=
  fun v hv => h v (Tree.mem_literals_of_mem_parts hpart hv)

/-- The form of an expression stands for its tree without lines. -/
theorem Expr.Made.reads_form {e : Expr} (h : e.Made tokens room)
    (hscanned : ∀ t ∈ tokens, t.Scanned) (hspelled : ∀ t ∈ tokens, t.Spelled)
    (hlegible : ∀ v ∈ e.toTree.literals, v.Legible) :
    e.form.Proper ∧ e.form.expression = (e.relabel (fun _ => 0) 0).toTree := by
  induction h with
  | @literal room n t v ht hv =>
    have hmem : v ∈ (Tree.literal v : Tree).literals := by
      rw [Tree.literals]
      exact List.mem_singleton_self v
    obtain ⟨hatom, hleaf⟩ := Form.leaf_literalText (hv.isLox (hscanned t ht)) (hlegible v hmem)
    exact ⟨.atom hatom, hleaf⟩
  | reference ht hk =>
    obtain ⟨-, hatom, hleaf⟩ := (hspelled _ ht).name_eq hk
    exact ⟨.atom hatom, hleaf⟩
  | grouping _ ih =>
    obtain ⟨hproper, hread⟩ := ih (legible_of_part hlegible (.head _))
    refine ⟨.one (by decide) hproper, ?_⟩
    rw [Expr.form, Form.expression, if_pos rfl, hread]
    rfl
  | unary ht hk _ ih =>
    have hop : ∀ k ∈ [Kind.bang, .minus], k ∈ Form.operators := by decide
    obtain ⟨hoperator, hspace, hgroup, -⟩ := (hspelled _ ht).operator_eq (hop _ hk)
    obtain ⟨hproper, hread⟩ := ih (legible_of_part hlegible (.tail _ (.head _)))
    refine ⟨.one hspace hproper, ?_⟩
    rw [Expr.form, Form.expression, if_neg hgroup, hread, hoperator]
    rfl
  | binary ht hk _ _ ihl ihr =>
    obtain ⟨hoperator, hspace, -, hequal⟩ :=
      (hspelled _ ht).operator_eq (List.mem_cons_of_mem _ hk)
    obtain ⟨hleft, hreadl⟩ := ihl (legible_of_part hlegible (.head _))
    obtain ⟨hright, hreadr⟩ := ihr (legible_of_part hlegible (.tail _ (.tail _ (.head _))))
    refine ⟨.two hspace hleft hright, ?_⟩
    rw [Expr.form, Form.expression, if_neg hequal, hreadl, hreadr, hoperator]
    rfl
  | assign ht hk _ ih =>
    obtain ⟨hname, hatom, -⟩ := (hspelled _ ht).name_eq hk
    obtain ⟨hproper, hread⟩ := ih (legible_of_part hlegible (.tail _ (.head _)))
    refine ⟨.two (by decide) (.atom hatom) hproper, ?_⟩
    rw [Expr.form, Form.expression, if_pos rfl, hread, hname]
    rfl
  | more _ ih => exact ih hlegible

/-- The form of a statement stands for its tree without lines. -/
theorem Stmt.Made.reads_form {stmt : Stmt} (h : stmt.Made tokens room)
    (hscanned : ∀ t ∈ tokens, t.Scanned) (hspelled : ∀ t ∈ tokens, t.Spelled)
    (hlegible : ∀ v ∈ stmt.toTree.literals, v.Legible) :
    stmt.form.Proper ∧ stmt.form.statement = (stmt.relabel (fun _ => 0) 0).toTree := by
  cases h with
  | expression he =>
    obtain ⟨hproper, hread⟩ := he.reads_form hscanned hspelled
      (legible_of_part hlegible (.head _))
    refine ⟨.one (by decide) hproper, ?_⟩
    rw [Stmt.form, Form.statement, if_pos rfl, hread]
    rfl
  | print he =>
    obtain ⟨hproper, hread⟩ := he.reads_form hscanned hspelled
      (legible_of_part hlegible (.head _))
    refine ⟨.one (by decide) hproper, ?_⟩
    rw [Stmt.form, Form.statement, if_neg (by decide), if_pos rfl, hread]
    rfl
  | declare ht hk =>
    obtain ⟨hname, hatom, -⟩ := (hspelled _ ht).name_eq hk
    refine ⟨.one (by decide) (.atom hatom), ?_⟩
    rw [Stmt.form, Form.statement, if_neg (by decide), if_neg (by decide), hname]
    rfl
  | declareAs ht hk he =>
    obtain ⟨hname, hatom, -⟩ := (hspelled _ ht).name_eq hk
    obtain ⟨hproper, hread⟩ := he.reads_form hscanned hspelled
      (legible_of_part hlegible (.tail _ (.head _)))
    refine ⟨.two (by decide) (.atom hatom) hproper, ?_⟩
    rw [Stmt.form, Form.statement, hread, hname]
    rfl

end

/-- The tree of a statement with all of its tokens on line zero. -/
def Stmt.unplaced (stmt : Stmt) : Tree :=
  (stmt.relabel (fun _ => 0) 0).toTree

theorem Stmt.render_unplaced (stmt : Stmt) (room : Nat) :
    stmt.unplaced.render room = stmt.toTree.render room :=
  stmt.render_relabel room

/-- The form of a statement of a source text stands for its tree without lines. -/
theorem reads_form_of_ofSource {text : String} {p : Program} (hp : Program.ofSource text = .ok p)
    {stmt : Stmt} (hmem : stmt ∈ p.statements) (hlegible : ∀ v ∈ stmt.toTree.literals, v.Legible) :
    stmt.form.Proper ∧ stmt.form.statement = stmt.unplaced := by
  obtain ⟨program, hprogram, hmade⟩ := made_of_ofSource text
  cases hp.symm.trans (Program.ofSource_eq hprogram)
  exact (hmade stmt hmem).reads_form (scanned_sourceTokens text) (spelled_sourceTokens text)
    hlegible

/-- Two statements of source texts whose strings have no quotes in them and whose numbers are
finite. If the first has a rendering, then the second has the same one exactly if the two trees are
equal but for the lines of their tokens. -/
theorem render_determines_tree {text text' : String} {p p' : Program} {stmt stmt' : Stmt}
    (hp : Program.ofSource text = .ok p) (hp' : Program.ofSource text' = .ok p')
    (hmem : stmt ∈ p.statements) (hmem' : stmt' ∈ p'.statements)
    (hlegible : ∀ v ∈ stmt.toTree.literals, v.Legible)
    (hlegible' : ∀ v ∈ stmt'.toTree.literals, v.Legible) {room : Nat} {rendering : String}
    (hrender : stmt.toTree.render room = .ok rendering) :
    (∃ room', stmt'.toTree.render room' = .ok rendering) ↔ stmt'.unplaced = stmt.unplaced := by
  constructor
  · rintro ⟨room', hrender'⟩
    obtain ⟨hproper, hread⟩ := reads_form_of_ofSource hp hmem hlegible
    obtain ⟨hproper', hread'⟩ := reads_form_of_ofSource hp' hmem' hlegible'
    -- the rendering is the text of both forms, so they are one
    have htext : stmt'.form.text ++ [] = stmt.form.text ++ [] := by
      rw [← stmt.spells_form room rendering hrender, ← stmt'.spells_form room' rendering hrender']
    obtain ⟨hform, -⟩ := hproper'.unique hproper Form.ends_nil Form.ends_nil htext
    rw [← hread, ← hread', hform]
  · intro htree
    refine ⟨room, ?_⟩
    rw [← stmt'.render_unplaced, htree, stmt.render_unplaced, hrender]

/-- A text whose string has a space and a parenthesis in it. -/
theorem scan_assigned_string :
    Scan.ofSource "a=\"( b\";" =
      ⟨[⟨.identifier, "a", none, 1⟩, ⟨.equal, "=", none, 1⟩, ⟨.string, "\"( b\"", some "( b", 1⟩,
        ⟨.semicolon, ";", none, 1⟩, Token.eof 1], [], 1⟩ := by
  have hsegments : segments "a=\"( b\";".toList = [.token .identifier ['a'] none,
      .token .equal ['='] none, .token .string ['"', '(', ' ', 'b', '"'] (some ['(', ' ', 'b']),
      .token .semicolon [';'] none] :=
    segments_eq_cons rfl (segments_eq_cons rfl (segments_eq_cons rfl (segments_eq_cons rfl
      segments.eq_1)))
  unfold Scan.ofSource
  rw [hsegments]
  rfl

/-- The same text one line further down. -/
theorem scan_assigned_string_below :
    Scan.ofSource "\na=\"( b\";" =
      ⟨[⟨.identifier, "a", none, 2⟩, ⟨.equal, "=", none, 2⟩, ⟨.string, "\"( b\"", some "( b", 2⟩,
        ⟨.semicolon, ";", none, 2⟩, Token.eof 2], [], 2⟩ := by
  have hsegments : segments "\na=\"( b\";".toList = [.newline, .token .identifier ['a'] none,
      .token .equal ['='] none, .token .string ['"', '(', ' ', 'b', '"'] (some ['(', ' ', 'b']),
      .token .semicolon [';'] none] :=
    segments_eq_cons rfl (segments_eq_cons rfl (segments_eq_cons rfl (segments_eq_cons rfl
      (segments_eq_cons rfl segments.eq_1))))
  unfold Scan.ofSource
  rw [hsegments]
  rfl

/-- The statement of these texts, on the given line. -/
def assignedString (line : Int) : Stmt :=
  .expression 4 (.assign 3 ⟨.identifier, "a", none, line⟩ (.literal 2 (.string "( b")))

theorem render_determines_tree_assigned_string :
    ∃ p p', Program.ofSource "a=\"( b\";" = .ok p ∧ p.statements = [assignedString 1] ∧
      Program.ofSource "\na=\"( b\";" = .ok p' ∧ p'.statements = [assignedString 2] ∧
      (assignedString 1).toTree.render 9 = .ok "(; (= a \"( b\"))" ∧
      (assignedString 2).unplaced = (assignedString 1).unplaced := by
  obtain ⟨p, hp, hstmts⟩ : ∃ p, Program.ofSource "a=\"( b\";" = .ok p ∧
      p.statements = [assignedString 1] := by
    unfold Program.ofSource
    rw [scan_assigned_string]
    exact ⟨_, rfl, rfl⟩
  obtain ⟨p', hp', hstmts'⟩ : ∃ p', Program.ofSource "\na=\"( b\";" = .ok p' ∧
      p'.statements = [assignedString 2] := by
    unfold Program.ofSource
    rw [scan_assigned_string_below]
    exact ⟨_, rfl, rfl⟩
  have hlegible : ∀ line, ∀ v ∈ (assignedString line).toTree.literals, v.Legible := by
    intro line v hv
    have hv : v = .string "( b" := by
      simpa [assignedString, Stmt.toTree, Expr.toTree, Tree.literals, Tree.parts,
        Tree.fields] using hv
    subst hv
    unfold Value.Legible
    decide
  have hrender : (assignedString 1).toTree.render 9 = .ok "(; (= a \"( b\"))" := rfl
  have hiff := render_determines_tree hp hp' (hstmts ▸ List.mem_singleton_self _)
    (hstmts' ▸ List.mem_singleton_self _) (hlegible 1) (hlegible 2) hrender
  exact ⟨p, p', hp, hstmts, hp', hstmts', hrender, hiff.1 ⟨9, rfl⟩⟩

end LoxTree
