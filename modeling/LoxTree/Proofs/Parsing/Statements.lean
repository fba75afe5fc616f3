import LoxTree.Proofs.Parsing.Steps

/-!
# Statements, recovery and whole programs

What the parser does with a statement, with one that fails, and with a whole program.

* `StatementRun` lists the ways in which a statement ends well, and `statementRun_of_ok` says that
  there are no others.
* `declaration_cases`: a declaration is a statement, and one that fails is recorded and skipped.
  `extends_of_declaration` says that it takes a token at least.
* `ProgramRun` is the loop over the declarations without its bound. On tokens whose numbers can be
  read there is such a run to the end, and it is what `Program.ofTokens` does
  (`Program.exists_run`).
-/

namespace LoxTree

open Step Parse

/-! ### Statements only go forward -/

/-- The last steps of a statement, its semicolon and its node. -/
theorem forward_finish (c : Complaint) (g : Nat → Stmt) :
    Forward (do let _ ← expect .semicolon c; return g (← newNode)) :=
  (forward_expect _ _).bind fun _ => forward_newNode.bind fun _ => .pure _

theorem forward_varDeclaration (room : Nat) : Forward (varDeclaration room) := by
  refine (forward_expect _ _).bind fun name => (forward_accept _).bind ?_
  rintro (_ | equals)
  · exact (Forward.pure none).bind fun e? => forward_finish _ (.var · name e?)
  · exact (forward_parse room .expression).map.bind fun e? => forward_finish _ (.var · name e?)

theorem forward_printStatement (room : Nat) : Forward (printStatement room) :=
  (forward_parse room .expression).bind fun e => forward_finish _ (.print · e)

theorem forward_expressionStatement (room : Nat) : Forward (expressionStatement room) :=
  (forward_parse room .expression).bind fun e => forward_finish _ (.expression · e)

/-- Parsing a statement only goes forward. -/
theorem forward_statement (room : Nat) : Forward (statement room) := by
  refine (forward_accept _).bind ?_
  rintro (_ | var)
  · refine (forward_accept _).bind ?_
    rintro (_ | print)
    · exact forward_expressionStatement room
    · exact forward_printStatement room
  · exact forward_varDeclaration room

/-! ### Statements that end well -/

/-- Last steps that end well take a semicolon and make a node. -/
theorem finish_eq_ok {g : Nat → Stmt} {c : Complaint} {s s' : ParseState} {stmt : Stmt}
    (h : (do let _ ← expect .semicolon c; return g (← newNode) : Parse Stmt) s = .ok stmt s') :
    ∃ semi, s.rest = semi :: s'.rest ∧ semi.kind = .semicolon ∧ stmt = g (s.nodes + 1) ∧
      s' = { s with rest := s'.rest, nodes := s.nodes + 1 } := by
  obtain ⟨semi, t, hsemi, h⟩ := bind_eq_ok_iff.1 h
  obtain ⟨rest, hrest, hk, rfl⟩ := expect_eq_ok hsemi
  rw [bind_of_ok (newNode_apply _)] at h
  cases h
  exact ⟨semi, hrest, hk, rfl, rfl⟩

/-- The ways in which a statement that starts in state `s` ends well. -/
inductive StatementRun (room : Nat) (s : ParseState) : Stmt → ParseState → Prop
  | var {kw name semi : Token} {rest : List Token} :
    s.rest = kw :: name :: semi :: rest → kw.kind = .kwVar → name.kind = .identifier →
    semi.kind = .semicolon →
    StatementRun room s (.var (s.nodes + 1) name none) { s with rest, nodes := s.nodes + 1 }
  | varInit {kw name equals semi : Token} {rest rest' : List Token} {e : Expr} {t : ParseState} :
    s.rest = kw :: name :: equals :: rest → kw.kind = .kwVar → name.kind = .identifier →
    equals.kind = .equal → Rule.parse room .expression { s with rest } = .ok e t →
    t.rest = semi :: rest' → semi.kind = .semicolon →
    StatementRun room s (.var (t.nodes + 1) name (some e))
      { t with rest := rest', nodes := t.nodes + 1 }
  | print {kw semi : Token} {rest rest' : List Token} {e : Expr} {t : ParseState} :
    s.rest = kw :: rest → kw.kind = .kwPrint →
    Rule.parse room .expression { s with rest } = .ok e t → t.rest = semi :: rest' →
    semi.kind = .semicolon →
    StatementRun room s (.print (t.nodes + 1) e) { t with rest := rest', nodes := t.nodes + 1 }
  | expression {semi : Token} {rest' : List Token} {e : Expr} {t : ParseState} :
    NextNotIn [.kwVar] s.rest → NextNotIn [.kwPrint] s.rest →
    Rule.parse room .expression s = .ok e t → t.rest = semi :: rest' → semi.kind = .semicolon →
    StatementRun room s (.expression (t.nodes + 1) e) { t with rest := rest', nodes := t.nodes + 1 }

theorem statementRun_of_ok {room : Nat} {s s' : ParseState} {stmt : Stmt}
    (h : statement room s = .ok stmt s') : StatementRun room s stmt s' := by
  unfold statement at h
  rcases accept_cases [.kwVar] s with ⟨kw, rest, hs, hk, ha⟩ | ⟨hv, ha⟩
  · -- a variable, with or without an initial value
    rw [bind_of_ok ha] at h
    have hk := List.mem_singleton.1 hk
    obtain ⟨name, t, hname, h⟩ := bind_eq_ok_iff.1 h
    obtain ⟨rest', hrest', hid, rfl⟩ := expect_eq_ok hname
    have hrest' : rest = name :: rest' := hrest'
    rcases accept_cases [.equal] { s with rest := rest' } with
      ⟨equals, rest₂, hs₂, hk₂, ha₂⟩ | ⟨-, ha₂⟩
    · rw [bind_of_ok ha₂] at h
      obtain ⟨e?, u, hmap, h⟩ := bind_eq_ok_iff.1 h
      obtain ⟨e, he, rfl⟩ := map_eq_ok_iff.1 hmap
      obtain ⟨semi, hsemi, hsk, rfl, hs'⟩ := finish_eq_ok h
      have hs₂ : rest' = equals :: rest₂ := hs₂
      subst hrest' hs₂
      rw [hs']
      exact .varInit hs hk hid (List.mem_singleton.1 hk₂) he hsemi hsk
    · rw [bind_of_ok ha₂] at h
      obtain ⟨semi, hsemi, hsk, rfl, hs'⟩ := finish_eq_ok h
      have hsemi : rest' = semi :: s'.rest := hsemi
      subst hrest'
      rw [hsemi] at hs
      rw [hs']
      exact .var hs hk hid hsk
  · -- a statement to print a value, or an expression
    rw [bind_of_ok ha] at h
    dsimp only at h
    rcases accept_cases [.kwPrint] s with ⟨kw, rest, hs, hk, ha⟩ | ⟨hp, ha⟩
    · rw [bind_of_ok ha] at h
      obtain ⟨e, u, he, h⟩ := bind_eq_ok_iff.1 h
      obtain ⟨semi, hsemi, hsk, rfl, hs'⟩ := finish_eq_ok h
      rw [hs']
      exact .print hs (List.mem_singleton.1 hk) he hsemi hsk
    · rw [bind_of_ok ha] at h
      obtain ⟨e, u, he, h⟩ := bind_eq_ok_iff.1 h
      obtain ⟨semi, hsemi, hsk, rfl, hs'⟩ := finish_eq_ok h
      rw [hs']
      exact .expression hv hp he hsemi hsk

/-- A statement that ends well ends with a semicolon. -/
theorem StatementRun.semicolon {room : Nat} {s s' : ParseState} {stmt : Stmt}
    (h : StatementRun room s stmt s') :
    ∃ semi, semi.kind = .semicolon ∧ semi :: s'.rest <:+ s.rest := by
  cases h with
  | @var kw name semi rest hs _ _ hsk =>
    exact ⟨semi, hsk, hs ▸ ((List.suffix_cons name _).trans (List.suffix_cons kw _))⟩
  | @varInit kw name equals semi rest rest' e t hs _ _ _ he ht hsk =>
    have hsuf := ((forward_parse room .expression).ok he).rest
    rw [ht] at hsuf
    exact ⟨semi, hsk, hsuf.trans (hs ▸ ((List.suffix_cons equals _).trans
      ((List.suffix_cons name _).trans (List.suffix_cons kw _))))⟩
  | @print kw semi rest rest' e t hs _ he ht hsk =>
    have hsuf := ((forward_parse room .expression).ok he).rest
    rw [ht] at hsuf
    exact ⟨semi, hsk, hsuf.trans (hs ▸ List.suffix_cons kw _)⟩
  | @expression semi rest' e t _ _ he ht hsk =>
    have hsuf := ((forward_parse room .expression).ok he).rest
    rw [ht] at hsuf
    exact ⟨semi, hsk, hsuf⟩

/-! ### Recovery -/

/-- Where parsing resumes after a failure. -/
def resume : List Token → List Token
  | [] => []
  | t :: rest => resumeAfter t.kind rest

/-- The state after a failed declaration: its complaint is recorded and its tokens are skipped. -/
def ParseState.recover (s : ParseState) (d : Diagnostic) : ParseState :=
  { s with rest := resume s.rest, errors := s.errors ++ [d] }

theorem resumeAfter_suffix (k : Kind) (tokens : List Token) : resumeAfter k tokens <:+ tokens := by
  induction tokens generalizing k with
  | nil => exact List.suffix_refl []
  | cons t rest ih =>
    unfold resumeAfter
    split
    · exact List.suffix_refl _
    · exact (ih t.kind).trans (List.suffix_cons t rest)

theorem length_resume_lt {tokens : List Token} (h : tokens ≠ []) :
    (resume tokens).length < tokens.length := by
  cases tokens with
  | nil => exact absurd rfl h
  | cons t rest =>
    have hle := (resumeAfter_suffix t.kind rest).length_le
    rw [List.length_cons]
    exact Nat.lt_succ_of_le hle

theorem resume_suffix (tokens : List Token) : resume tokens <:+ tokens := by
  cases tokens with
  | nil => exact List.suffix_refl []
  | cons t rest => exact (resumeAfter_suffix t.kind rest).trans (List.suffix_cons t rest)

theorem ParseState.extends_recover (s : ParseState) (d : Diagnostic) : s.Extends (s.recover d) :=
  ⟨rfl, resume_suffix s.rest, List.prefix_append _ _⟩

/-- A state in which a complaint was recorded has more of them than any state before. -/
theorem ParseState.errors_recover_ne {s t : ParseState} (h : s.Extends t) (d : Diagnostic) :
    (t.recover d).errors ≠ s.errors := by
  intro heq
  have hlen := congrArg List.length heq
  have hle := h.errors.length_le
  rw [ParseState.recover, List.length_append, List.length_singleton] at hlen
  omega

section

variable {room : Nat} {s t : ParseState}

theorem declaration_of_ok {stmt : Stmt} (h : statement room s = .ok stmt t) :
    declaration room s = .ok (some stmt) t := by
  have hmap : (some <$> statement room) s = .ok (some stmt) t := map_of_ok h
  exact tryCatch_of_ok hmap

/-- A statement that fails is rescued in the state in which it failed. -/
theorem declaration_of_error {f : Fault} (h : statement room s = .error f t) :
    declaration room s = (match f with
      | .diagnostic d => .ok none (t.recover d)
      | .tooDeep => .ok none (t.recover (.grammatical (t.rest.headD t.ending) .nestedTooDeeply))
      | f => .error f t) := by
  have hmap : (some <$> statement room) s = .error f t := map_of_error h
  unfold declaration
  rw [tryCatch_of_error hmap]
  cases f <;> rfl

end

/-- A declaration is a statement; if that fails in a way from which the parser recovers, its
complaint is recorded. -/
theorem declaration_cases (room : Nat) (s : ParseState) :
    (∃ stmt s', statement room s = .ok stmt s' ∧ declaration room s = .ok (some stmt) s') ∨
    (∃ f d t, statement room s = .error f t ∧ f.Recoverable ∧
      declaration room s = .ok none (t.recover d)) ∨
    (∃ f t, ¬ f.Recoverable ∧ statement room s = .error f t ∧ declaration room s = .error f t) := by
  cases h : statement room s with
  | ok stmt s' => exact .inl ⟨stmt, s', rfl, declaration_of_ok h⟩
  | error f t =>
    have hd := declaration_of_error h
    by_cases hf : f.Recoverable
    · rcases hf with rfl | ⟨d, rfl⟩
      · exact .inr (.inl ⟨_, _, t, rfl, .inl rfl, hd⟩)
      · exact .inr (.inl ⟨_, d, t, rfl, .inr ⟨d, rfl⟩, hd⟩)
    · refine .inr (.inr ⟨f, t, hf, rfl, ?_⟩)
      cases f with
      | diagnostic d => exact absurd (.inr ⟨d, rfl⟩) hf
      | tooDeep => exact absurd (.inl rfl) hf
      | _ => exact hd

/-- A declaration that leaves no complaint is a statement that ended well. -/
theorem statement_of_clean {room : Nat} {s t : ParseState} {stmt? : Option Stmt}
    (h : declaration room s = .ok stmt? t) (ht : t.errors = s.errors) :
    ∃ stmt, stmt? = some stmt ∧ statement room s = .ok stmt t := by
  rcases declaration_cases room s with ⟨stmt, u, hs, hd⟩ | ⟨f, d, u, hs, -, hd⟩ | ⟨f, u, -, -, hd⟩
  · rw [hd] at h
    cases h
    exact ⟨stmt, rfl, hs⟩
  · rw [hd] at h
    cases h
    exact absurd ht (ParseState.errors_recover_ne ((forward_statement room s).error hs).1 d)
  · rw [hd] at h
    cases h

/-- A declaration goes forward, and it takes a token at least. -/
theorem extends_of_declaration {room : Nat} {s s' : ParseState} {stmt? : Option Stmt}
    (h : declaration room s = .ok stmt? s') (hne : s.rest ≠ []) :
    s.Extends s' ∧ s'.rest.length < s.rest.length := by
  have hfwd := forward_statement room s
  -- recovery skips at least the token at which the statement failed
  have hrecover : ∀ {t : ParseState} (d : Diagnostic), s.Extends t →
      s.Extends (t.recover d) ∧ (t.recover d).rest.length < s.rest.length := by
    intro t d ht
    refine ⟨ht.trans (t.extends_recover d), ?_⟩
    show (resume t.rest).length < s.rest.length
    by_cases hnil : t.rest = []
    · rw [hnil]
      exact List.length_pos_iff.2 hne
    · exact Nat.lt_of_lt_of_le (length_resume_lt hnil) ht.rest.length_le
  rcases declaration_cases room s with ⟨stmt, t, hs, hd⟩ | ⟨f, d, t, hs, -, hd⟩ | ⟨f, t, -, -, hd⟩
  · rw [hd] at h
    cases h
    obtain ⟨semi, -, hsuf⟩ := (statementRun_of_ok hs).semicolon
    have hlen := hsuf.length_le
    rw [List.length_cons] at hlen
    exact ⟨hfwd.ok hs, hlen⟩
  · rw [hd] at h
    cases h
    exact hrecover d (hfwd.error hs).1
  · rw [hd] at h
    cases h

/-- On readable tokens a declaration gives a result. -/
theorem declaration_eq_ok (room : Nat) {s : ParseState} (hr : Readable s.rest) :
    ∃ stmt? s', declaration room s = .ok stmt? s' := by
  rcases declaration_cases room s with ⟨stmt, s', -, hd⟩ | ⟨f, d, t, -, -, hd⟩ | ⟨f, t, hf, h, -⟩
  · exact ⟨_, _, hd⟩
  · exact ⟨_, _, hd⟩
  · exact absurd (((forward_statement room s).error h).2 hr) hf

/-! ### Whole programs -/

/-- Declarations up to the end marker, whatever their number. -/
inductive ProgramRun (room : Nat) : ParseState → List Stmt → ParseState → Prop
  | done {s : ParseState} : s.rest = [] → ProgramRun room s [] s
  | next {s t s' : ParseState} {stmt? : Option Stmt} {stmts : List Stmt} :
    s.rest ≠ [] → declaration room s = .ok stmt? t → ProgramRun room t stmts s' →
    ProgramRun room s (stmt?.toList ++ stmts) s'

namespace ProgramRun

variable {room : Nat} {s s' : ParseState} {stmts : List Stmt}

/-- A loop with a bound that is large enough does what the run says. -/
theorem declarations_eq (h : ProgramRun room s stmts s') {n : Nat} (hn : s.rest.length ≤ n) :
    declarations room n s = .ok stmts s' := by
  induction h generalizing n with
  | @done s hnil =>
    cases n with
    | zero => rfl
    | succ n =>
      show (if s.rest.isEmpty then _ else _ : Parse (List Stmt)) s = _
      rw [hnil]
      rfl
  | @next s t s' stmt? stmts hne hd _ ih =>
    -- a declaration takes a token at least, so one round less is enough for the rest
    have hlt := (extends_of_declaration hd hne).2
    cases n with
    | zero => exact absurd (List.length_eq_zero_iff.1 (Nat.le_zero.1 hn)) hne
    | succ n =>
      have hempty : s.rest.isEmpty = false := List.isEmpty_eq_false_iff.2 hne
      show (if s.rest.isEmpty then _ else _ : Parse (List Stmt)) s = _
      rw [hempty]
      have hrest : declarations room n t = .ok stmts s' := ih (by omega)
      show (declaration room >>= fun stmt? => _ : Parse (List Stmt)) s = _
      rw [bind_of_ok hd, bind_of_ok hrest]
      rfl

/-- On readable tokens there is a run to the end. -/
theorem exists_of_readable (room : Nat) {s : ParseState} (hr : Readable s.rest) :
    ∃ stmts s', ProgramRun room s stmts s' := by
  -- by the number of tokens left
  induction hlen : s.rest.length using Nat.strongRecOn generalizing s with
  | _ n ih =>
    by_cases hnil : s.rest = []
    · exact ⟨[], s, .done hnil⟩
    · obtain ⟨stmt?, t, hd⟩ := declaration_eq_ok room hr
      obtain ⟨hext, hlt⟩ := extends_of_declaration hd hnil
      obtain ⟨stmts, s', hrun⟩ := ih _ (hlen ▸ hlt) (hr.of_suffix hext.rest) rfl
      exact ⟨_, s', .next hnil hd hrun⟩

theorem extends_of_run (h : ProgramRun room s stmts s') : s.Extends s' := by
  induction h with
  | done _ => exact .refl _
  | next hne hd _ ih => exact (extends_of_declaration hd hne).1.trans ih

end ProgramRun

/-- Tokens as the scanner makes them: no end marker among them, and numbers that can be read. -/
structure ScannerShaped (tokens : List Token) : Prop where
  noEnding : ∀ t ∈ tokens, t.kind ≠ .eof
  readable : Readable tokens

theorem ScannerShaped.of_noNumber {tokens : List Token}
    (h : ∀ t ∈ tokens, t.kind ≠ .eof ∧ t.kind ≠ .number) : ScannerShaped tokens :=
  ⟨fun t ht => (h t ht).1, fun t ht hk => absurd hk (h t ht).2⟩

/-- Tokens before an end marker are what the parser reads, whatever stands behind it. -/
theorem ParseState.ofTokens_append_cons {tokens : List Token} {ending : Token}
    (h : ∀ t ∈ tokens, t.kind ≠ .eof) (hend : ending.kind = .eof) (after : List Token) :
    ParseState.ofTokens (tokens ++ ending :: after) = { rest := tokens, ending } := by
  have htake : (tokens ++ ending :: after).takeWhile (fun t => t.kind ≠ .eof) = tokens := by
    rw [List.takeWhile_append_of_pos (by simpa using h)]
    simp [hend]
  have hfind : (tokens ++ ending :: after).find? (fun t => t.kind = .eof) = some ending := by
    rw [List.find?_append, List.find?_eq_none.2 (by simpa using h)]
    simp [hend]
  unfold ParseState.ofTokens
  rw [htake, hfind]
  rfl

theorem ParseState.ofTokens_append {tokens : List Token} {ending : Token}
    (h : ∀ t ∈ tokens, t.kind ≠ .eof) (hend : ending.kind = .eof) :
    ParseState.ofTokens (tokens ++ [ending]) = { rest := tokens, ending } :=
  ParseState.ofTokens_append_cons h hend []

/-- The program that tokens make up is what a run over them gives. -/
theorem Program.ofTokens_eq {tokens : List Token} {ending : Token} {stmts : List Stmt}
    {s' : ParseState} (h : ScannerShaped tokens) (hend : ending.kind = .eof)
    (hrun : ProgramRun nestingRoom { rest := tokens, ending } stmts s') :
    Program.ofTokens (tokens ++ [ending]) =
      .ok ⟨stmts, s'.errors, tokens.length - s'.rest.length, s'.nodes⟩ := by
  unfold Program.ofTokens
  rw [ParseState.ofTokens_append h.noEnding hend]
  simp only [hrun.declarations_eq (Nat.le_refl _)]

/-- Tokens as the scanner makes them always make up a program. -/
theorem Program.exists_run {tokens : List Token} {ending : Token} (h : ScannerShaped tokens)
    (hend : ending.kind = .eof) :
    ∃ stmts s', ProgramRun nestingRoom { rest := tokens, ending } stmts s' ∧
      Program.ofTokens (tokens ++ [ending]) =
        .ok ⟨stmts, s'.errors, tokens.length - s'.rest.length, s'.nodes⟩ := by
  obtain ⟨stmts, s', hrun⟩ :=
    ProgramRun.exists_of_readable nestingRoom (s := { rest := tokens, ending }) h.readable
  exact ⟨stmts, s', hrun, Program.ofTokens_eq h hend hrun⟩

end LoxTree
