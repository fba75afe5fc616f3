import LoxTree.Proofs.Parsing.Order
import LoxTree.Proofs.Parsing.Recognition

/-!
# Recovery before a word that starts a statement

A broken statement without a semicolon, and behind it a correct program that starts with a word such
as `print`. The parser skips what is left of the broken statement up to that word. But it always
skips the token at which the statement failed, and where the statement failed at the word itself,
recovery goes on to the end of the first statement of the correct program.

* `resumeAfter_skip`: tokens that are no place to resume at are skipped.
* `resume_declaration`: recovery at the start of a declaration skips the whole of it.
* `ProgramRun.elsewhere`: a program is read the same wherever it stands.
* `ofTokens_resumes_iff`: all of the correct program is read exactly if the statement before it
  failed before it.
* `ofTokens_loses_statement`: there is a correct statement that is lost.
-/

namespace LoxTree

open Step Parse Grammar

/-! ### Where parsing resumes -/

/-- Tokens that neither end nor start a statement are skipped. -/
theorem resumeAfter_skip {skipped : List Token} {kind : Kind} (hkind : kind ≠ .semicolon)
    (h : ∀ t ∈ skipped, t.kind ≠ .semicolon ∧ t.kind ∉ Kind.statementStarts) (rest : List Token) :
    ∃ last, last ≠ .semicolon ∧ resumeAfter kind (skipped ++ rest) = resumeAfter last rest := by
  induction skipped generalizing kind with
  | nil => exact ⟨kind, hkind, rfl⟩
  | cons t skipped ih =>
    obtain ⟨⟨hsemi, hstart⟩, hskipped⟩ := List.forall_mem_cons.1 h
    obtain ⟨last, hlast, heq⟩ := ih hsemi hskipped
    refine ⟨last, hlast, ?_⟩
    rw [List.cons_append, resumeAfter, if_neg (by simp [hkind, hstart]), heq]

theorem resumeAfter_semicolon (tokens : List Token) : resumeAfter .semicolon tokens = tokens := by
  cases tokens <;> rfl

/-- Where some of the tokens `a` are left, parsing resumes before the word that starts a statement
behind them. -/
theorem resume_append_of_start {a left rest : List Token} (hleft : left <:+ a) (hne : left ≠ [])
    (hsemi : ∀ t ∈ a, t.kind ≠ .semicolon) (hword : ∀ t ∈ a.tail, t.kind ∉ Kind.statementStarts)
    (hstart : ∃ t ∈ rest.head?, t.kind ∈ Kind.statementStarts) : resume (left ++ rest) = rest := by
  obtain ⟨first, more, rfl⟩ := List.exists_cons_of_ne_nil hne
  have hmore : more ⊆ a.tail := by
    obtain ⟨used, rfl⟩ := hleft
    cases used with
    | nil => exact List.Subset.refl _
    | cons _ used => exact fun t ht => List.mem_append_right used (List.mem_cons_of_mem _ ht)
  obtain ⟨last, -, heq⟩ := resumeAfter_skip (hsemi first (hleft.mem List.mem_cons_self))
    (fun t ht => ⟨hsemi t (List.mem_of_mem_tail (hmore ht)), hword t (hmore ht)⟩) rest
  obtain ⟨t, ht, hk⟩ := hstart
  obtain ⟨tail, rfl⟩ := List.head?_eq_some_iff.1 ht
  show resumeAfter first.kind (more ++ t :: tail) = t :: tail
  rw [heq, resumeAfter, if_pos (by simp [hk])]

/-- A declaration is a token that is no semicolon, tokens between boundaries, and a semicolon. -/
theorem declaration_tokens {tokens : List Token} {tree : Tree} (h : Declaration tokens tree) :
    ∃ first more semi, tokens = first :: more ++ [semi] ∧ first.kind ≠ .semicolon ∧
      (∀ t ∈ more, t.kind ∉ boundaries) ∧ semi.kind = .semicolon := by
  have hid : Kind.identifier ∉ boundaries := by decide
  have hequal : Kind.equal ∉ boundaries := by decide
  cases h with
  | @var kw name semi hk hn hs => exact ⟨kw, [name], semi, rfl, by simp [hk], by simp [hn, hid], hs⟩
  | @varInit kw name equals semi tokens tree hk hn heq hd hs =>
    refine ⟨kw, name :: equals :: tokens, semi, rfl, by simp [hk], ?_, hs⟩
    simpa [hn, heq, hid, hequal] using hd.kind_notMem_boundaries
  | @print kw semi tokens tree hk hd hs =>
    exact ⟨kw, tokens, semi, rfl, by simp [hk], hd.kind_notMem_boundaries, hs⟩
  | @expression semi tokens tree hd hs =>
    have hnot := hd.kind_notMem_boundaries
    obtain ⟨first, more, rfl, -⟩ := hd.starts
    obtain ⟨hfirst, hmore⟩ := List.forall_mem_cons.1 hnot
    refine ⟨first, more, semi, rfl, fun heq => hfirst ?_, hmore, hs⟩
    rw [heq]
    decide

/-- Recovery at the start of a declaration skips the whole of it. -/
theorem resume_declaration {tokens : List Token} {tree : Tree} (h : Declaration tokens tree)
    (rest : List Token) : resume (tokens ++ rest) = rest := by
  obtain ⟨first, more, semi, rfl, hfirst, hmore, hsemi⟩ := declaration_tokens h
  have hplain : ∀ t ∈ more, t.kind ≠ .semicolon ∧ t.kind ∉ Kind.statementStarts := by
    intro t ht
    have hnot := hmore t ht
    simp only [boundaries, List.mem_cons, not_or] at hnot
    exact hnot.2
  obtain ⟨last, hlast, heq⟩ := resumeAfter_skip hfirst hplain (semi :: rest)
  show resumeAfter first.kind (more ++ [semi] ++ rest) = rest
  have hstart : semi.kind ∉ Kind.statementStarts := by
    rw [hsemi]
    decide
  rw [List.append_assoc, List.singleton_append, heq, resumeAfter,
    if_neg (by simp [hlast, hstart]), hsemi, resumeAfter_semicolon]

/-! ### Programs elsewhere -/

namespace ProgramRun

variable {room : Nat} {s s' t u u' : ParseState} {stmts stmts' : List Stmt}

/-- There is only one run from a state. -/
theorem unique (h : ProgramRun room s stmts u) (h' : ProgramRun room s stmts' u') :
    stmts' = stmts ∧ u' = u := by
  have heq := (h.declarations_eq (Nat.le_refl _)).symm.trans (h'.declarations_eq (Nat.le_refl _))
  cases heq
  exact ⟨rfl, rfl⟩

/-- A run from a fresh state, in any state with the same tokens. -/
theorem of_fresh {rest : List Token} {ending : Token}
    (h : ProgramRun room { rest, ending } stmts u) (hrest : s.rest = rest)
    (hend : s.ending = ending) :
    ∃ u', ProgramRun room s (stmts.map (Stmt.relabel (fun l => l) s.nodes)) u' ∧
      u'.errors = s.errors ++ u.errors := by
  have hwithin : Within (fun l => l) s.nodes s.errors [] ⟨rest, ending, 0, []⟩ s := by
    refine ⟨⟨?_, (List.append_nil _).symm, (Nat.zero_add _).symm⟩, .inr (.inr ⟨rfl, hend⟩)⟩
    rw [List.map_id'' Token.mapLine_same, List.append_nil, hrest]
  obtain ⟨u', hu', -, hrun⟩ := h.aligned hwithin
  have hnil : u'.rest = [] := by
    rw [hu'.rest, h.rest_eq_nil]
    rfl
  refine ⟨u', ?_, ?_⟩
  · have hdone := hrun _ _ (.done hnil)
    rwa [List.append_nil] at hdone
  · rw [hu'.errors, List.map_id'' Diagnostic.mapLine_same]

/-- A program is read the same from two states with the same tokens: to the same trees, and with the
same complaints behind those that were there. -/
theorem elsewhere (h : ProgramRun room s stmts u) (hr : Readable s.rest)
    (hrest : s'.rest = s.rest) (hend : s'.ending = s.ending) :
    ∃ stmts' u' new, ProgramRun room s' stmts' u' ∧
      stmts'.map Stmt.toTree = stmts.map Stmt.toTree ∧ u.errors = s.errors ++ new ∧
      u'.errors = s'.errors ++ new := by
  -- both runs are compared with the one from a fresh state
  obtain ⟨fresh, v, hfresh⟩ :=
    exists_of_readable room (s := { rest := s.rest, ending := s.ending }) hr
  obtain ⟨w, hw, hwerrors⟩ := hfresh.of_fresh (s := s) rfl rfl
  obtain ⟨w', hw', hwerrors'⟩ := hfresh.of_fresh hrest hend
  obtain ⟨rfl, rfl⟩ := hw.unique h
  refine ⟨_, w', v.errors, hw', ?_, hwerrors, hwerrors'⟩
  rw [List.map_map, List.map_map]
  refine List.map_congr_left fun stmt _ => ?_
  show (stmt.relabel _ _).toTree = (stmt.relabel _ _).toTree
  rw [Stmt.toTree_relabel_same, Stmt.toTree_relabel_same]

/-- The first declaration of a correct program takes the tokens that recovery would skip. -/
theorem first_of_clean (h : ProgramRun room s stmts u) (herr : u.errors = s.errors)
    (hne : s.rest ≠ []) :
    ∃ stmt later t, stmts = stmt :: later ∧ ProgramRun room t later u ∧ t.errors = s.errors ∧
      t.rest = resume s.rest ∧ t.ending = s.ending := by
  cases h with
  | done hnil => exact absurd hnil hne
  | @next _ t _ stmt? later _ hd hrun =>
    obtain ⟨hext, -⟩ := extends_of_declaration hd hne
    have ht := hext.errors_eq hrun.extends_of_run herr
    obtain ⟨stmt, rfl, hs⟩ := statement_of_clean hd ht
    obtain ⟨tokens, hrest, hdecl⟩ := declaration_of_statementRun (statementRun_of_ok hs) ht
    refine ⟨stmt, later, t, rfl, hrun, ht, ?_, hext.ending⟩
    rw [hrest, resume_declaration hdecl]

end ProgramRun

/-! ### A broken statement before a correct program -/

/-- A first statement that fails is recorded behind the targets in its tokens, and the rest of the
program is read from where parsing resumes. -/
theorem Program.ofTokens_of_failure {tokens : List Token} {ending : Token} {f : Fault}
    {t : ParseState} (h : ScannerShaped tokens) (hend : ending.kind = .eof) (hne : tokens ≠ [])
    (hfail : statement nestingRoom { rest := tokens, ending } = .error f t) :
    ∃ used targets complaint s, tokens = used ++ t.rest ∧ (∀ d ∈ targets, d.AboutTarget used) ∧
      s.rest = resume t.rest ∧ s.ending = ending ∧
      s.errors = targets ++ [.grammatical (t.rest.headD ending) complaint] ∧
      ∀ stmts u, ProgramRun nestingRoom s stmts u →
        ∃ p, Program.ofTokens (tokens ++ [ending]) = .ok p ∧ p.statements = stmts ∧
          p.errors = u.errors := by
  obtain ⟨⟨used, targets, ht⟩, -⟩ := (orders_statement nestingRoom _).error hfail
  obtain ⟨stmt?, s, hd⟩ :=
    declaration_eq_ok nestingRoom (s := { rest := tokens, ending }) h.readable
  obtain ⟨rfl, complaint, rfl⟩ := recover_of_error hfail hd
  have hending : t.ending = ending := ht.ending
  have herrors : t.errors = targets := ht.errors
  rw [hending] at hd
  refine ⟨used, targets, complaint, t.recover (.grammatical (t.rest.headD ending) complaint),
    ht.rest, ht.targets, rfl, hending, ?_, fun stmts u hrun => ?_⟩
  · rw [← herrors]
    rfl
  · have hp := Program.ofTokens_eq h hend (.next hne hd hrun)
    exact ⟨_, hp, rfl, rfl⟩

/-- Tokens `a` without a semicolon, and without a word that starts a statement behind the first of
them, and a correct program `b` that starts with such a word. The statement that starts with `a`
fails where the tokens `c` of `a` are left. Then it is the only one about which there are
complaints: about targets in `a`, and about the next token, which is in `a` or the first one of `b`.
The statements are those of `b` exactly if a token of `a` is left. If none is left, the first
statement of `b` is lost. -/
theorem ofTokens_resumes_iff {a b c : List Token} {ending : Token} {f : Fault} {t : ParseState}
    {q : Program} (ha : ScannerShaped a) (hb : ScannerShaped b) (hend : ending.kind = .eof)
    (hsemi : ∀ x ∈ a, x.kind ≠ .semicolon) (hword : ∀ x ∈ a.tail, x.kind ∉ Kind.statementStarts)
    (hstart : ∃ x ∈ b.head?, x.kind ∈ Kind.statementStarts)
    (hq : Program.ofTokens (b ++ [ending]) = .ok q) (hclean : q.errors = [])
    (hfail : statement nestingRoom { rest := a ++ b, ending } = .error f t)
    (hleft : t.rest = c ++ b) :
    ∃ p targets complaint, Program.ofTokens (a ++ b ++ [ending]) = .ok p ∧
      p.errors = targets ++ [.grammatical ((c ++ b).headD ending) complaint] ∧
      (∀ d ∈ targets, d.AboutTarget a) ∧
      (p.statements.map Stmt.toTree = q.statements.map Stmt.toTree ↔ c ≠ []) ∧
      (c = [] → p.statements.map Stmt.toTree = (q.statements.map Stmt.toTree).tail) := by
  have hbne : b ≠ [] := by
    rintro rfl
    obtain ⟨x, hx, -⟩ := hstart
    cases hx
  obtain ⟨used, targets, complaint, s, hused, htargets, hrest, hending, herrors, hread⟩ :=
    Program.ofTokens_of_failure (ha.append hb) hend (by simp [hbne]) hfail
  rw [hleft] at hused hrest herrors
  have hsplit : a = used ++ c := by
    rw [← List.append_assoc] at hused
    exact List.append_cancel_right hused
  have htargets : ∀ d ∈ targets, d.AboutTarget a := by
    intro d hd
    rw [hsplit]
    exact (htargets d hd).mono (List.subset_append_left _ _)
  obtain ⟨stmts, v, hrun, hq'⟩ := Program.exists_run hb hend
  cases hq.symm.trans hq'
  have hv : v.errors = [] := hclean
  obtain ⟨first, later, w, rfl, hlater, hw, hwrest, hwending⟩ := hrun.first_of_clean hv hbne
  by_cases hc : c = []
  · -- recovery starts at `b` and skips its first statement
    subst hc
    have hreadable : Readable w.rest := by
      rw [hwrest]
      exact hb.readable.of_suffix (resume_suffix b)
    obtain ⟨stmts', u, new, hrun', htrees, hnew, hu⟩ :=
      hlater.elsewhere hreadable (hrest.trans hwrest.symm) (hending.trans hwending.symm)
    rw [hv, hw] at hnew
    have hnew : new = [] := hnew.symm
    obtain ⟨p, hp, hstmts, hperrors⟩ := hread _ _ hrun'
    refine ⟨p, targets, complaint, hp, ?_, htargets, ?_, fun _ => ?_⟩
    · rw [hperrors, hu, hnew, herrors, List.append_nil]
    · rw [hstmts, htrees]
      refine iff_of_false (fun heq => ?_) (by simp)
      have hlen := congrArg List.length heq
      simp at hlen
    · rw [hstmts, htrees]
      rfl
  · -- recovery stops before `b`
    have hleft : c <:+ a := ⟨used, hsplit.symm⟩
    have hresume := resume_append_of_start hleft hc hsemi hword hstart
    obtain ⟨u, hrun', hu⟩ := hrun.of_fresh (hrest.trans hresume) hending
    obtain ⟨p, hp, hstmts, hperrors⟩ := hread _ _ hrun'
    refine ⟨p, targets, complaint, hp, ?_, htargets, iff_of_true ?_ hc, fun hnil => absurd hnil hc⟩
    · rw [hperrors, hu, hv, herrors, List.append_nil]
    · rw [hstmts, List.map_map]
      exact List.map_congr_left fun stmt _ => Stmt.toTree_relabel_same s.nodes stmt

/-- The tokens of `print (nil = nil) nil )`, with an invalid target and two tokens too many. -/
def overfullTokens : List Token :=
  [⟨.kwPrint, "print", none, 1⟩, ⟨.leftParen, "(", none, 1⟩, ⟨.kwNil, "nil", none, 1⟩,
    ⟨.equal, "=", none, 1⟩, ⟨.kwNil, "nil", none, 1⟩, ⟨.rightParen, ")", none, 1⟩,
    ⟨.kwNil, "nil", none, 1⟩, ⟨.rightParen, ")", none, 1⟩]

/-- The tokens of `var a;`. -/
def declarationTokens : List Token :=
  [⟨.kwVar, "var", none, 2⟩, ⟨.identifier, "a", none, 2⟩, ⟨.semicolon, ";", none, 2⟩]

theorem ofTokens_resumes_iff_overfullTokens :
    ∃ p targets complaint,
      Program.ofTokens (overfullTokens ++ declarationTokens ++ [Token.eof 2]) = .ok p ∧
      p.errors = targets ++ [.grammatical ⟨.kwNil, "nil", none, 1⟩ complaint] ∧
      (∀ d ∈ targets, d.AboutTarget overfullTokens) ∧
      p.statements.map Stmt.toTree =
        [.varDecl (.token ⟨.identifier, "a", none, 2⟩) .missing] := by
  have hstart : ∃ x ∈ declarationTokens.head?, x.kind ∈ Kind.statementStarts :=
    ⟨_, rfl, by decide⟩
  have ha : ScannerShaped overfullTokens := .of_noNumber (by decide)
  have hb : ScannerShaped declarationTokens := .of_noNumber (by decide)
  have hend : (Token.eof 2).kind = .eof := rfl
  obtain ⟨p, targets, complaint, hp, herrors, htargets, hiff, -⟩ :=
    ofTokens_resumes_iff (c := [⟨.kwNil, "nil", none, 1⟩, ⟨.rightParen, ")", none, 1⟩]) ha hb hend
      (by decide) (by decide) hstart rfl rfl rfl rfl
  exact ⟨p, targets, complaint, hp, herrors, htargets, hiff.2 (by simp)⟩

/-- The tokens of `print nil`, which lacks its semicolon. -/
def unendedTokens : List Token :=
  [⟨.kwPrint, "print", none, 1⟩, ⟨.kwNil, "nil", none, 1⟩]

/-- The missing semicolon is found at the word `var`, and the correct declaration is lost. -/
theorem ofTokens_loses_statement :
    ScannerShaped unendedTokens ∧ ScannerShaped declarationTokens ∧
      (∀ x ∈ unendedTokens, x.kind ≠ .semicolon) ∧
      (∀ x ∈ unendedTokens.tail, x.kind ∉ Kind.statementStarts) ∧
      (∃ x ∈ declarationTokens.head?, x.kind ∈ Kind.statementStarts) ∧
      (∃ f t, statement nestingRoom
        { rest := unendedTokens ++ declarationTokens, ending := Token.eof 2 } = .error f t ∧
        t.rest = declarationTokens) ∧
      ∃ p q, Program.ofTokens (declarationTokens ++ [Token.eof 2]) = .ok q ∧ q.errors = [] ∧
        Program.ofTokens (unendedTokens ++ declarationTokens ++ [Token.eof 2]) = .ok p ∧
        q.statements.map Stmt.toTree =
          [.varDecl (.token ⟨.identifier, "a", none, 2⟩) .missing] ∧
        p.statements.map Stmt.toTree = [] :=
  ⟨.of_noNumber (by decide), .of_noNumber (by decide), by decide, by decide, ⟨_, rfl, by decide⟩,
    ⟨_, _, rfl, rfl⟩, _, _, rfl, rfl, rfl, rfl, rfl⟩

end LoxTree
