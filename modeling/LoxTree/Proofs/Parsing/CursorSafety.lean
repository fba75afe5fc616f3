import LoxTree.Proofs.Parsing.Cursor
import LoxTree.Proofs.Parsing.Recognition
import LoxTree.Proofs.Parsing.Seam
import Mathlib.Data.List.TakeWhile

/-!
# The cursor stays among the tokens

The parser with a cursor does what the parser on the tokens that are left does, rule by rule, and so
it never looks outside of its list and no loop of it goes on forever, whatever the tokens are.

* `follows_parse`, `follows_declaration` and `follows_standalone` say so of the rules, of the
  declarations and of expressions that stand alone. `foldOperators_sameOutcome`, `skip_apply` and
  `declarations_sameOutcome` are about the three loops: each round takes a token.
* `splitsAt_withEnding`: every list that the parser works on has a first end marker.
* `parsing_keeps_cursor`: parsing ends, with the cursor always at a token, and nothing behind the
  first end marker counts.
-/

namespace LoxTree

open Step

namespace Cursor

/-! ### Rules and statements -/

section

variable {tokens before : List Token} {ending : Token} (hsplit : SplitsAt tokens before ending)

include hsplit

/-- One round more than there are tokens left is enough for the loop over operators: each but the
last takes an operator. -/
theorem foldOperators_sameOutcome {operators : List Kind} {m : Parse Expr} {n : Cursor Expr}
    (hm : Follows before ending m n) (hfwd : Forward m) {rounds : Nat} {left : Expr}
    {s : ParseState} {c : CursorState} (h : Tracks before ending s c)
    (hlen : s.rest.length ≤ rounds) :
    SameOutcome (Tracks before ending) (fun f halt => halt = .fault f)
      (Parse.foldOperators operators m rounds left s)
      (foldOperators tokens operators n (rounds + 1) left c) := by
  rw [← foldOperators_succ hfwd hlen]
  induction rounds generalizing left s c with
  | zero =>
    have hnext : Parse.NextNotIn operators s.rest := by
      rw [List.length_eq_zero_iff.1 (Nat.le_zero.1 hlen)]
      exact Parse.nextNotIn_nil operators
    refine (follows_accept hsplit operators s c h).bind ?_
    rintro o s' c' ha h'
    rw [Parse.accept_of_notMem hnext] at ha
    cases ha
    exact ⟨rfl, h'⟩
  | succ rounds ih =>
    refine (follows_accept hsplit operators s c h).bind ?_
    rintro (_ | operator) s' c' ha h'
    · exact ⟨rfl, h'⟩
    · refine (hm s' c' h').bind fun right t d hright ht => ?_
      refine (follows_newNode t d ht).bind fun id u e hid hu => ih hu ?_
      -- the operator is gone and the operand gives no token back
      obtain ⟨rest, hs, -, rfl⟩ := Parse.accept_eq_some ha
      have hle := (hfwd.ok hright).rest.length_le
      rw [hs, List.length_cons] at hlen
      cases hid
      exact Nat.le_trans hle (Nat.le_of_succ_le_succ hlen)

theorem follows_leftAssoc {operators : List Kind} {m : Parse Expr} {n : Cursor Expr}
    (hm : Follows before ending m n) (hfwd : Forward m) :
    Follows before ending (Parse.leftAssoc operators m) (leftAssoc tokens operators n) := by
  intro s c h
  obtain ⟨k, hk⟩ := Nat.exists_eq_add_of_lt hsplit.length_lt
  rw [leftAssoc_apply hfwd (Nat.le_trans h.length_le (Nat.le_add_right _ k))]
  unfold leftAssoc
  rw [hk]
  refine (hm s c h).bind fun left s' c' _ h' => ?_
  exact foldOperators_sameOutcome hsplit hm hfwd h'
    (Nat.le_trans h'.length_le (Nat.le_add_right _ k))

theorem follows_closeGroup {m : Parse Expr} {n : Cursor Expr} (hm : Follows before ending m n) :
    Follows before ending (Parse.closeGroup m) (do
      let inner ← n
      let _ ← expect tokens .rightParen .expectClosingParen
      return .grouping (← newNode) inner) :=
  hm.bind fun _ => (follows_expect hsplit _ _).bind fun _ => follows_newNode.bind fun _ => .pure _

/-- Parsing by a rule is the same with a cursor. -/
theorem follows_parse (room : Nat) (r : Rule) :
    Follows before ending (Rule.parse room r) (parse tokens room r) := by
  induction room, r using Rule.parse.induct with
  | case1 room ih => exact ih
  | case2 room ih₁ ih₂ =>
    refine ih₁.bind fun target => (follows_accept hsplit _).bind ?_
    rintro (_ | equals)
    · exact .pure target
    · refine ih₂.bind fun value => ?_
      cases target with
      | reference _ name => exact follows_newNode.bind fun _ => .pure _
      | _ => exact (follows_record _).bind fun _ => .pure value
  | case3 room ih | case4 room ih | case5 room ih | case6 room ih =>
    -- the four levels of operators
    exact follows_leftAssoc hsplit ih (forward_parse _ _)
  | case7 room ih₁ ih₂ =>
    refine (follows_accept hsplit _).bind ?_
    rintro (_ | operator)
    · exact ih₂
    · exact ih₁.bind fun _ => follows_newNode.bind fun _ => .pure _
  | case8 room ih =>
    refine (follows_accept hsplit _).bind ?_
    rintro (_ | t)
    · exact follows_complain hsplit _
    · dsimp only
      generalize t.kind = kind
      cases kind with
      | kwFalse | kwTrue | kwNil | string => exact follows_literal _
      | number => exact (follows_ofFallible _).bind fun v => follows_literal v
      | identifier => exact follows_newNode.bind fun _ => .pure _
      | _ => exact follows_closeGroup hsplit ih
  | case9 room r h₁ h₂ h₃ h₄ h₅ h₆ h₇ h₈ =>
    -- no room is left
    rw [Rule.parse.eq_9 room r h₁ h₂ h₃ h₄ h₅ h₆ h₇ h₈,
      parse.eq_9 tokens room r h₁ h₂ h₃ h₄ h₅ h₆ h₇ h₈]
    exact .throw rfl

/-- The last steps of a statement, its semicolon and its node. -/
theorem follows_finish (complaint : Complaint) (g : Nat → Stmt) :
    Follows before ending
      (do let _ ← Parse.expect .semicolon complaint; return g (← Parse.newNode))
      (do let _ ← expect tokens .semicolon complaint; return g (← newNode)) :=
  (follows_expect hsplit _ _).bind fun _ => follows_newNode.bind fun _ => .pure _

theorem follows_varDeclaration (room : Nat) :
    Follows before ending (Parse.varDeclaration room) (varDeclaration tokens room) := by
  refine (follows_expect hsplit _ _).bind fun name => (follows_accept hsplit _).bind ?_
  rintro (_ | equals)
  · exact (Coincide.pure none).bind fun e? => follows_finish hsplit _ (.var · name e?)
  · exact (follows_parse hsplit room .expression).map.bind fun e? =>
      follows_finish hsplit _ (.var · name e?)

theorem follows_statement (room : Nat) :
    Follows before ending (Parse.statement room) (statement tokens room) := by
  refine (follows_accept hsplit _).bind ?_
  rintro (_ | var)
  · refine (follows_accept hsplit _).bind ?_
    have hexpression := follows_parse hsplit room .expression
    rintro (_ | print)
    · exact hexpression.bind fun e => follows_finish hsplit _ (.expression · e)
    · exact hexpression.bind fun e => follows_finish hsplit _ (.print · e)
  · exact follows_varDeclaration hsplit room

/-! ### Recovery and whole programs -/

/-- Skipping from behind the token `p`. One round more than there are tokens left is enough. -/
theorem skip_apply {s : ParseState} {c : CursorState} (h : Tracks before ending s c) {i : Nat}
    {p : Token} (hi : c.current = i + 1) (hp : tokens[i]? = some p) {rounds : Nat}
    (hlen : s.rest.length < rounds) :
    ∃ c', skip tokens rounds c = .ok () c' ∧
      Tracks before ending { s with rest := Parse.resumeAfter p.kind s.rest } c' := by
  induction rounds generalizing s c i p with
  | zero => exact absurd hlen (Nat.not_lt_zero _)
  | succ rounds ih =>
    have hstay : ∀ rest, s.rest = rest → Tracks before ending { s with rest } c := by
      rintro _ rfl
      exact h
    have hend := isAtEnd_apply hsplit h
    have hprevious := previous_apply hi hp
    have hpeek := peek_apply hsplit h
    unfold skip
    rw [bind_of_ok hend]
    cases hs : s.rest with
    | nil => exact ⟨c, rfl, hstay [] hs⟩
    | cons t rest =>
      rw [hs] at hpeek hlen
      have hresume : Parse.resumeAfter p.kind (t :: rest) =
          if p.kind = .semicolon ∨ t.kind ∈ Kind.statementStarts then t :: rest
          else Parse.resumeAfter t.kind rest := by
        simp [Parse.resumeAfter]
      rw [hresume]
      show ∃ c', (previous tokens >>= _) c = _ ∧ _
      rw [bind_of_ok hprevious]
      by_cases hsemi : p.kind = .semicolon
      · rw [if_pos hsemi, if_pos (Or.inl hsemi)]
        exact ⟨c, rfl, hstay _ hs⟩
      · rw [if_neg hsemi]
        show ∃ c', (peek tokens >>= _) c = _ ∧ _
        rw [bind_of_ok hpeek]
        by_cases hstart : t.kind ∈ Kind.statementStarts
        · rw [if_pos (Or.inr hstart)]
          refine ⟨c, ?_, hstay _ hs⟩
          exact congrFun (if_pos hstart) c
        · rw [if_neg (not_or.2 ⟨hsemi, hstart⟩)]
          obtain ⟨c', hskip, htracks⟩ :=
            ih (h.take hs) rfl (getElem?_current hsplit h hs) (Nat.lt_of_succ_lt_succ hlen)
          refine ⟨c', ?_, htracks⟩
          rw [← hskip]
          refine (congrFun (if_neg hstart) c).trans ?_
          exact bind_of_ok (advance_of_cons hsplit h hs)

theorem follows_synchronize (hne : before ≠ []) :
    Follows before ending Parse.synchronize (synchronize tokens) := by
  intro s c h
  have hlen := Nat.lt_of_le_of_lt h.length_le hsplit.length_lt
  show SameOutcome _ _ (.ok () { s with rest := resume s.rest }) _
  cases hs : s.rest with
  | nil =>
    obtain ⟨i, t, hi, ht, hadvance⟩ := advance_of_nil hsplit h hs hne
    obtain ⟨c', hskip, htracks⟩ := skip_apply hsplit h hi ht hlen
    unfold synchronize
    rw [bind_of_ok hadvance, hskip]
    rw [hs] at htracks
    exact ⟨rfl, htracks⟩
  | cons t rest =>
    rw [hs] at hlen
    obtain ⟨c', hskip, htracks⟩ := skip_apply hsplit (h.take hs) rfl
      (getElem?_current hsplit h hs) (Nat.lt_of_succ_lt hlen)
    unfold synchronize
    rw [bind_of_ok (advance_of_cons hsplit h hs), hskip]
    exact ⟨rfl, htracks⟩

theorem follows_declaration (hne : before ≠ []) (room : Nat) :
    Follows before ending (Parse.declaration room) (declaration tokens room) := by
  have hrecover : ∀ d, Follows before ending
      (do Parse.record d; Parse.synchronize; return (none : Option Stmt))
      (do record d; synchronize tokens; return none) := fun d =>
    (follows_record d).bind fun _ => (follows_synchronize hsplit hne).bind fun _ => .pure none
  refine (follows_statement hsplit room).map.tryCatch ?_
  rintro f _ rfl
  cases f with
  | diagnostic d => exact hrecover d
  | tooDeep => exact (follows_peek hsplit).bind fun t => hrecover _
  | _ => exact .throw rfl

/-- One round more than there are tokens left is enough for the loop over declarations. -/
theorem declarations_sameOutcome (room : Nat) {rounds : Nat} {s : ParseState} {c : CursorState}
    (h : Tracks before ending s c) (hlen : s.rest.length ≤ rounds) :
    SameOutcome (Tracks before ending) (fun f halt => halt = .fault f)
      (Parse.declarations room rounds s) (declarations tokens room (rounds + 1) c) := by
  induction rounds generalizing s c with
  | zero =>
    have hnil := List.length_eq_zero_iff.1 (Nat.le_zero.1 hlen)
    have hend := isAtEnd_apply hsplit h
    rw [hnil] at hend
    unfold declarations
    rw [bind_of_ok hend]
    exact ⟨rfl, h⟩
  | succ rounds ih =>
    have hend := isAtEnd_apply hsplit h
    unfold declarations
    rw [bind_of_ok hend]
    show SameOutcome _ _ ((if s.rest.isEmpty then _ else _ : Parse (List Stmt)) s) _
    cases hempty : s.rest.isEmpty with
    | true => exact ⟨rfl, h⟩
    | false =>
      have hrest : s.rest ≠ [] := List.isEmpty_eq_false_iff.1 hempty
      have hne := h.before_ne_nil hrest
      refine (follows_declaration hsplit hne room s c h).bind fun stmt? s' c' hd h' => ?_
      have hlt := (extends_of_declaration hd hrest).2
      refine (ih h' (by omega)).bind fun stmts s'' c'' _ h'' => ?_
      exact ⟨rfl, h''⟩

/-- An expression that stands alone is the same with a cursor. -/
theorem follows_standalone (room : Nat) :
    Follows before ending (Parse.standalone room) (standalone tokens room) := by
  refine ((follows_parse hsplit room .expression).tryCatch ?_).bind fun e => ?_
  · rintro f _ rfl
    cases f with
    | tooDeep => exact follows_complain hsplit _
    | _ => exact .throw rfl
  · intro s c h
    rw [bind_of_ok (isAtEnd_apply hsplit h)]
    have hpeek := peek_apply hsplit h
    obtain ⟨rest, _, nodes, errors⟩ := s
    obtain ⟨current, nodes', errors'⟩ := c
    obtain rfl : errors' = errors := h.errors
    cases rest with
    | nil =>
      -- nothing is left, so that the complaints are those recorded before
      cases errors' with
      | nil => exact ⟨rfl, h⟩
      | cons d later => exact ⟨rfl, h⟩
    | cons t rest =>
      -- the tokens that are left are one more complaint
      have hrecorded := (follows_record (.grammatical t .expectExpressionEnd) _ _ h).2
      show SameOutcome _ _ _ ((peek tokens >>= _) _)
      rw [bind_of_ok hpeek]
      cases errors' with
      | nil => exact ⟨rfl, hrecorded⟩
      | cons d later => exact ⟨rfl, hrecorded⟩

end

/-- The states in which the loop over declarations stands. -/
inductive Visits (tokens : List Token) (room : Nat) : CursorState → Prop
  | start : Visits tokens room {}
  | next {c c' : CursorState} {t : Token} {stmt? : Option Stmt} :
    Visits tokens room c → tokens[c.current]? = some t → t.kind ≠ .eof →
    declaration tokens room c = .ok stmt? c' → Visits tokens room c'

end Cursor

/-! ### The first end marker -/

namespace SplitsAt

variable {tokens tokens' before : List Token} {ending : Token}

theorem of_prefix (h : SplitsAt tokens before ending) (hle : tokens <+: tokens') :
    SplitsAt tokens' before ending :=
  ⟨h.start.trans hle, h.noEnding, h.isEnding⟩

/-- The parser reads the tokens before the first end marker. -/
theorem ofTokens_eq (h : SplitsAt tokens before ending) :
    ParseState.ofTokens tokens = { rest := before, ending } := by
  obtain ⟨after, rfl⟩ := h.start
  rw [List.append_assoc]
  exact ParseState.ofTokens_append_cons h.noEnding h.isEnding after

/-- The place of the first end marker. -/
theorem findIdx?_eq (h : SplitsAt tokens before ending) :
    tokens.findIdx? (fun t => t.kind = .eof) = some before.length := by
  obtain ⟨after, rfl⟩ := h.start
  rw [List.append_assoc, List.findIdx?_append,
    List.findIdx?_eq_none_iff.2 (by simpa using h.noEnding)]
  simp [List.findIdx?_cons, h.isEnding]

end SplitsAt

theorem prefix_withEnding (tokens : List Token) : tokens <+: withEnding tokens := by
  unfold withEnding
  split
  · split
    · exact List.prefix_refl tokens
    · exact List.prefix_append _ _
  · next hlast =>
    rw [List.getLast?_eq_none_iff.1 hlast]
    exact List.nil_prefix

theorem withEnding_of_noEnding {tokens : List Token} (h : ∀ t ∈ tokens, t.kind ≠ .eof) :
    withEnding tokens = tokens ++ [Token.eof ((tokens.getLast?.map Token.line).getD 1)] := by
  unfold withEnding
  cases hlast : tokens.getLast? with
  | none =>
    rw [List.getLast?_eq_none_iff.1 hlast]
    rfl
  | some t =>
    have hne : t.kind ≠ .eof := h t (List.mem_of_getLast? hlast)
    simp [hne]

/-- The list that the parser works on has an end marker, and the first one is where it stops. -/
theorem splitsAt_withEnding (tokens : List Token) :
    SplitsAt (withEnding tokens) (ParseState.ofTokens tokens).rest
      (ParseState.ofTokens tokens).ending := by
  cases hfind : tokens.find? (fun t => t.kind = .eof) with
  | some ending =>
    obtain ⟨hending, before, after, rfl, hbefore⟩ := List.find?_eq_some_iff_append.1 hfind
    have hsplit : SplitsAt (before ++ ending :: after) before ending :=
      ⟨⟨after, by simp⟩, by simpa using hbefore, by simpa using hending⟩
    rw [hsplit.ofTokens_eq]
    exact hsplit.of_prefix (prefix_withEnding _)
  | none =>
    have hno : ∀ t ∈ tokens, t.kind ≠ .eof := by simpa using hfind
    have hsplit : SplitsAt (withEnding tokens) tokens
        (Token.eof ((tokens.getLast?.map Token.line).getD 1)) :=
      ⟨withEnding_of_noEnding hno ▸ List.prefix_refl _, hno, rfl⟩
    unfold ParseState.ofTokens
    rw [hfind, List.takeWhile_eq_self_iff.2 (by simpa using hno)]
    exact hsplit

/-- The tokens up to the first end marker are all that the parser reads. -/
theorem SplitsAt.ofTokens_withEnding {tokens before : List Token} {ending : Token}
    (h : SplitsAt (withEnding tokens) before ending) :
    ParseState.ofTokens tokens = { rest := before, ending } := by
  rw [← h.ofTokens_eq, (splitsAt_withEnding tokens).ofTokens_eq]
  rfl

namespace Cursor

variable {tokens before : List Token} {ending : Token} {s : ParseState} {c : CursorState}

theorem tracks_start (before : List Token) (ending : Token) :
    Tracks before ending { rest := before, ending } {} :=
  ⟨Nat.zero_le _, rfl, rfl, rfl, rfl⟩

/-- A declaration that starts before the end marker moves the cursor. -/
theorem declaration_moves (hsplit : SplitsAt tokens before ending) (room : Nat)
    (h : Tracks before ending s c) (hr : Readable s.rest) (hrest : s.rest ≠ []) :
    ∃ stmt? s' c', declaration tokens room c = .ok stmt? c' ∧ Tracks before ending s' c' ∧
      Readable s'.rest ∧ c.current < c'.current := by
  obtain ⟨stmt?, s', hd⟩ := declaration_eq_ok room hr
  obtain ⟨hext, hlt⟩ := extends_of_declaration hd hrest
  have hsame := follows_declaration hsplit (h.before_ne_nil hrest) room s c h
  rw [hd] at hsame
  obtain ⟨c', hd', h'⟩ := hsame.ok
  refine ⟨stmt?, s', c', hd', h', hr.of_suffix hext.rest, ?_⟩
  have hle := h.length_le
  rw [← h.consumed_eq, ← h'.consumed_eq]
  omega

/-- Before the end marker there are tokens left. -/
theorem rest_ne_nil (hsplit : SplitsAt tokens before ending) (h : Tracks before ending s c)
    {t : Token} (ht : tokens[c.current]? = some t) (hk : t.kind ≠ .eof) : s.rest ≠ [] := by
  intro hnil
  have hthis := getElem?_of_le hsplit h.inRange
  rw [← h.rest, hnil, ht] at hthis
  cases hthis
  exact hk hsplit.isEnding

theorem Visits.tracks {room : Nat} (hsplit : SplitsAt tokens before ending) (hr : Readable before)
    (hv : Visits tokens room c) : ∃ s, Tracks before ending s c ∧ Readable s.rest := by
  induction hv with
  | start => exact ⟨_, tracks_start before ending, hr⟩
  | @next c c' t stmt? _ ht hk hd ih =>
    obtain ⟨s, h, hrest⟩ := ih
    obtain ⟨stmt', s', c'', hd', h', hrest', -⟩ :=
      declaration_moves hsplit room h hrest (rest_ne_nil hsplit h ht hk)
    rw [hd] at hd'
    cases hd'
    exact ⟨s', h', hrest'⟩

/-- On readable tokens the loop over declarations ends at the first end marker. -/
theorem declarations_eq_ok (hsplit : SplitsAt tokens before ending) (hr : Readable before)
    (room : Nat) :
    ∃ stmts s' c, ProgramRun room { rest := before, ending } stmts s' ∧
      declarations tokens room tokens.length {} = .ok stmts c ∧ Tracks before ending s' c ∧
      c.current = before.length := by
  obtain ⟨stmts, s', hrun⟩ :=
    ProgramRun.exists_of_readable room (s := { rest := before, ending }) hr
  obtain ⟨k, hk⟩ := Nat.exists_eq_add_of_lt hsplit.length_lt
  have hlen : before.length ≤ before.length + k := Nat.le_add_right _ k
  have hsame := declarations_sameOutcome hsplit room (tracks_start before ending) hlen
  rw [hrun.declarations_eq hlen, ← hk] at hsame
  obtain ⟨c, hc, h⟩ := hsame.ok
  exact ⟨stmts, s', c, hrun, hc, h, h.rest_eq_nil_iff.1 hrun.rest_eq_nil⟩

/-- On readable tokens an expression that stands alone fails only with a complaint. -/
theorem exists_diagnostic_of_error {room : Nat} {s' : ParseState} {f : Fault}
    (hr : Readable s.rest) (h : Parse.standalone room s = .error f s') :
    ∃ d, f = .diagnostic d := by
  cases hp : Rule.parse room .expression s with
  | ok e t =>
    rw [standalone_of_ok hp] at h
    split at h <;> cases h
    exact ⟨_, rfl⟩
  | error g t =>
    rcases ((forward_parse room .expression s).error hp).2 hr with rfl | ⟨d, rfl⟩
    · rw [standalone_of_tooDeep hp] at h
      cases h
      exact ⟨_, rfl⟩
    · rw [standalone_of_error hp (by simp)] at h
      cases h
      exact ⟨d, rfl⟩

/-- On readable tokens an expression that stands alone ends well or with a complaint. -/
theorem standalone_eq (hsplit : SplitsAt tokens before ending) (hr : Readable before) (room : Nat) :
    ∃ (result : Except Diagnostic Expr) (s' : ParseState) (c : CursorState),
      Parse.standalone room { rest := before, ending } = (match result with
        | .ok e => .ok e s'
        | .error d => .error (.diagnostic d) s') ∧
      standalone tokens room {} = (match result with
        | .ok e => .ok e c
        | .error d => .error (.fault (.diagnostic d)) c) ∧
      Tracks before ending s' c := by
  have hsame := follows_standalone hsplit room _ _ (tracks_start before ending)
  cases hst : Parse.standalone room { rest := before, ending } with
  | ok e s' =>
    rw [hst] at hsame
    obtain ⟨c, hc, h⟩ := hsame.ok
    exact ⟨.ok e, s', c, rfl, hc, h⟩
  | error f s' =>
    rw [hst] at hsame
    obtain ⟨_, c, hc, rfl, h⟩ := hsame.error
    obtain ⟨d, rfl⟩ := exists_diagnostic_of_error hr hst
    exact ⟨.error d, s', c, rfl, hc, h⟩

end Cursor

open Cursor

/-- On every list of tokens whose numbers can be read the parser ends, with its cursor always at a
token. That a step of the parser with a cursor ends well, or fails with a fault of the parser's own,
says that it never looked outside of the list, before its first token or behind its last, and that
no loop went on beyond its bound.

Whatever the room for nesting, the loop over declarations stands at tokens of the list only, each
declaration moves the cursor, and the loop ends at the first end marker, with what
`Program.ofTokens` gives. An expression that stands alone ends at a token of the list, with what
`Standalone.ofTokens` gives. What stands behind the first end marker has no effect on either. -/
theorem parsing_keeps_cursor (tokens : List Token) (h : Readable tokens) :
    (∀ room c, Visits (withEnding tokens) room c →
      ∃ t, (withEnding tokens)[c.current]? = some t ∧ (t.kind ≠ .eof →
        ∃ stmt? c', declaration (withEnding tokens) room c = .ok stmt? c' ∧
          c.current < c'.current)) ∧
    (∀ room, ∃ stmts c,
      declarations (withEnding tokens) room (withEnding tokens).length {} = .ok stmts c ∧
      (withEnding tokens).findIdx? (fun t => t.kind = .eof) = some c.current ∧
      (room = nestingRoom →
        Program.ofTokens tokens = .ok ⟨stmts, c.errors, c.current, c.nodes⟩)) ∧
    (∀ room, ∃ (result : Except Diagnostic Expr) (c : CursorState),
      standalone (withEnding tokens) room {} = (match result with
        | .ok e => .ok e c
        | .error d => .error (.fault (.diagnostic d)) c) ∧
      c.current < (withEnding tokens).length ∧
      (room = nestingRoom →
        Standalone.ofTokens tokens = ⟨result.mapError .diagnostic, c.errors, c.current⟩)) ∧
    ∀ tokens' before ending, SplitsAt (withEnding tokens) before ending →
      SplitsAt (withEnding tokens') before ending →
      Program.ofTokens tokens' = Program.ofTokens tokens ∧
        Standalone.ofTokens tokens' = Standalone.ofTokens tokens := by
  obtain ⟨before, ending, hsplit, hstart⟩ : ∃ before ending,
      SplitsAt (withEnding tokens) before ending ∧
      ParseState.ofTokens tokens = { rest := before, ending } :=
    ⟨_, _, splitsAt_withEnding tokens, rfl⟩
  have hr : Readable before := by
    intro t ht
    have hrest : before = (ParseState.ofTokens tokens).rest := by rw [hstart]
    exact h t (List.takeWhile_subset _ (hrest ▸ ht))
  refine ⟨?_, ?_, ?_, ?_⟩
  · intro room c hv
    obtain ⟨s, hs, hreadable⟩ := hv.tracks hsplit hr
    refine ⟨_, getElem?_of_le hsplit hs.inRange, fun hk => ?_⟩
    obtain ⟨stmt?, s', c', hd, -, -, hlt⟩ := declaration_moves hsplit room hs hreadable
      (rest_ne_nil hsplit hs (getElem?_of_le hsplit hs.inRange) hk)
    exact ⟨stmt?, c', hd, hlt⟩
  · intro room
    obtain ⟨stmts, s', c, hrun, hc, hs, hcurrent⟩ := declarations_eq_ok hsplit hr room
    refine ⟨stmts, c, hc, hcurrent ▸ hsplit.findIdx?_eq, ?_⟩
    rintro rfl
    unfold Program.ofTokens
    simp only [hstart, hrun.declarations_eq (Nat.le_refl _), hs.consumed_eq, hs.errors, hs.nodes]
  · intro room
    obtain ⟨result, s', c, hst, hc, hs⟩ := standalone_eq hsplit hr room
    refine ⟨result, c, hc, Nat.lt_of_le_of_lt hs.inRange hsplit.length_lt, ?_⟩
    rintro rfl
    unfold Standalone.ofTokens
    simp only [hstart, hst, hs.errors]
    cases result with
    | ok e => exact congrArg _ hs.consumed_eq
    | error d => exact congrArg _ hs.consumed_eq
  · intro tokens' before ending hsplit hsplit'
    have hsame : ParseState.ofTokens tokens' = ParseState.ofTokens tokens :=
      hsplit'.ofTokens_withEnding.trans hsplit.ofTokens_withEnding.symm
    unfold Program.ofTokens Standalone.ofTokens
    rw [hsame]
    exact ⟨rfl, rfl⟩

/-- A stray parenthesis, a word that starts a statement of no form there is, a number without its
semicolon, and more behind the end marker. -/
def interruptedTokens : List Token :=
  [⟨.rightParen, ")", none, 1⟩, ⟨.kwClass, "class", none, 1⟩, ⟨.number, "1", some "1", 1⟩,
    Token.eof 1, ⟨.kwPrint, "print", none, 2⟩]

/-- Parsing ends at the marker in the middle, and what stands behind it has no effect. -/
theorem parsing_keeps_cursor_interruptedTokens :
    Readable interruptedTokens ∧
      (∃ program, Program.ofTokens interruptedTokens = .ok program ∧ program.position = 3) ∧
      Program.ofTokens (interruptedTokens.take 4) = Program.ofTokens interruptedTokens := by
  have hr : Readable interruptedTokens := by
    intro t ht hk
    simp only [interruptedTokens, List.mem_cons, List.not_mem_nil, or_false] at ht
    rcases ht with rfl | rfl | rfl | rfl | rfl
    · cases hk
    · cases hk
    · exact ⟨_, rfl⟩
    · cases hk
    · cases hk
  obtain ⟨-, hloop, -, hbehind⟩ := parsing_keeps_cursor interruptedTokens hr
  refine ⟨hr, ?_, ?_⟩
  · obtain ⟨stmts, c, -, hfirst, hprogram⟩ := hloop nestingRoom
    have hplace : (withEnding interruptedTokens).findIdx? (fun t => t.kind = .eof) = some 3 := rfl
    rw [hplace] at hfirst
    exact ⟨_, hprogram rfl, (Option.some.inj hfirst).symm⟩
  · refine (hbehind (interruptedTokens.take 4) (interruptedTokens.take 3) (Token.eof 1) ?_ ?_).1
    · exact ⟨⟨[⟨.kwPrint, "print", none, 2⟩, Token.eof 2], rfl⟩, by decide, rfl⟩
    · exact ⟨⟨[], rfl⟩, by decide, rfl⟩

end LoxTree
