import LoxTree.Proofs.Running.Execution

/-!
# Programs never fail as a whole

Whatever texts are run one after another in a session, each of them ends well: the scanner makes
only numbers that can be read, the parser only trees that can be run and rendered, and a running
program fails only in the ways that end one statement. The invariant from one program to the next is
that every value bound in the scopes is one of the language.

* `source_safe`: one program ends well and keeps the scopes typed.
* `sources_safe`: so do any number of programs.
* `source_never_fails`: what that means for the program after them.
-/

namespace LoxTree

open Step Run

/-- One program ends well. Its runtime complaints are those of its attempts, and there are no
attempts if there are complaints about the program itself. -/
theorem source_safe (text : String) (s : Session) :
    ∃ program s', Program.ofSource text = .ok program ∧ Run.source text s = .ok () s' ∧
      (∀ stmt ∈ program.statements, stmt.toTree.IsStatement) ∧ s.KeepsTyped s' ∧
      (program.errors ≠ [] → s'.runtimeErrors = s.runtimeErrors) ∧
      (program.errors = [] → ∃ outcomes u u',
        Executes globalScope u (program.statements.map Stmt.toTree) outcomes u' ∧
        u.scopes = s.scopes ∧ s'.scopes = u'.scopes ∧
        s'.runtimeErrors = s.runtimeErrors ++ outcomes.reduceOption ∧
        ∀ d ∈ outcomes.reduceOption, d.OfRun) := by
  obtain ⟨program, hp, hstmts⟩ := isStatement_of_ofSource text
  have hsource := Program.ofSource_eq hp
  by_cases herr : (Scan.ofSource text).errors ++ program.errors = []
  · -- the statements are attempted, one after the other
    obtain ⟨u, hu, hscopes, hrun⟩ := source_of_clean hp herr s
    have htrees : ∀ t ∈ program.statements.map Stmt.toTree, t.IsStatement := by
      intro t ht
      obtain ⟨stmt, hmem, rfl⟩ := List.mem_map.1 ht
      exact hstmts stmt hmem
    obtain ⟨outcomes, u', hexec, hall⟩ := exists_executes htrees globalScope u
    have hsafe := hexec.safe htrees
    have hs' := hrun outcomes u' hexec
    refine ⟨_, _, hsource, hs', hstmts, ?_, fun hne => absurd herr hne, fun _ => ?_⟩
    · intro ht
      exact hsafe.2 (hscopes ▸ ht)
    · refine ⟨outcomes, u, u', hexec, hscopes, rfl, ?_, hall⟩
      show u'.runtimeErrors ++ outcomes.reduceOption = _
      rw [hsafe.1.runtimeErrors, hu.runtimeErrors]
      rfl
  · -- the complaints are reported, and the scopes stay as they are
    obtain ⟨s', hs', hframe, hscopes⟩ := source_of_errors hp rfl herr s
    refine ⟨_, s', hsource, hs', hstmts, ?_, fun _ => hframe.runtimeErrors,
      fun heq => absurd heq herr⟩
    intro ht
    exact hscopes ▸ ht

/-- Any number of programs end well and keep the scopes typed. -/
theorem sources_safe (texts : List String) {s : Session} (h : s.scopes.Typed) :
    ∃ s', texts.forM Run.source s = .ok () s' ∧ s'.scopes.Typed := by
  induction texts generalizing s with
  | nil => exact ⟨s, rfl, h⟩
  | cons text rest ih =>
    -- the scopes are typed between any two programs
    obtain ⟨-, u, -, hu, -, htyped, -, -⟩ := source_safe text s
    obtain ⟨s', hs', htyped'⟩ := ih (htyped h)
    refine ⟨s', ?_, htyped'⟩
    show (Run.source text >>= fun _ => rest.forM Run.source) s = _
    rw [bind_of_ok hu]
    exact hs'

/-- In typed scopes every global variable has a value of the language. -/
theorem Session.isLox_of_mem_globals {s : Session} (h : s.scopes.Typed) {binding : String × Value}
    (hmem : binding ∈ s.globals) : binding.2.isLox = true := by
  unfold globals Forest.listing at hmem
  cases hscopes : s.scopes.reverse with
  | nil =>
    rw [hscopes] at hmem
    cases hmem
  | cons scope rest =>
    rw [hscopes] at hmem
    have hscope : scope ∈ s.scopes := List.mem_reverse.1 (hscopes ▸ List.mem_cons_self)
    have hbinding : binding ∈ scope.sorted := hmem
    exact h scope hscope binding (List.mem_mergeSort.1 hbinding)

/-- Whatever programs are run before it in a fresh session at any level of tracing, a program ends
well: its numbers can be read, no part of its statements is unsupported where it is rendered or
executed, each statement that is executed ends with at most one complaint, which is one of a running
program, and after it every global variable has a value of the language. -/
theorem source_never_fails (level : Int) (before : List String) (text : String) :
    ∃ s s' program, before.forM Run.source (Session.start level) = .ok () s ∧
      Run.source text s = .ok () s' ∧ Program.ofSource text = .ok program ∧
      (∀ t ∈ (Scan.ofSource text).tokens, t.kind = .number →
        ∃ x, Parse.numberValue t = .ok (.number x)) ∧
      (∀ stmt ∈ program.statements,
        (∀ room what, stmt.toTree.render room ≠ .error (.unsupported what)) ∧
        ∀ scope u what u', execute scope stmt.toTree u ≠ .error (.unsupported what) u') ∧
      (program.errors ≠ [] → s'.runtimeErrors = s.runtimeErrors) ∧
      (program.errors = [] → ∃ outcomes u u',
        Executes globalScope u (program.statements.map Stmt.toTree) outcomes u' ∧
        u.scopes = s.scopes ∧ s'.scopes = u'.scopes ∧
        s'.runtimeErrors = s.runtimeErrors ++ outcomes.reduceOption ∧
        ∀ d ∈ outcomes.reduceOption, d.OfRun) ∧
      ∀ binding ∈ s'.globals, binding.2.isLox = true := by
  have hstart : (Session.start level).scopes.Typed := Forest.typed_global
  obtain ⟨s, hs, htyped⟩ := sources_safe before hstart
  obtain ⟨program, s', hp, hs', hstmts, htyped', herr, hclean⟩ := source_safe text s
  refine ⟨s, s', program, hs, hs', hp, ?_, fun stmt hmem => ⟨?_, ?_⟩, herr, hclean, ?_⟩
  · intro t ht hk
    rw [Scan.ofSource_tokens] at ht
    rcases List.mem_append.1 ht with ht | ht
    · exact (scanned_sourceTokens text t ht).number hk
    · rw [List.mem_singleton.1 ht] at hk
      cases hk
  · intro room what h
    cases (hstmts stmt hmem).renders room _ h
  · intro scope u what u' h
    rcases ((execute_safe (hstmts stmt hmem) scope u).error h).2 with hf | ⟨d, hf, -⟩
    · cases hf
    · cases hf
  · exact fun binding hmem => Session.isLox_of_mem_globals (htyped' htyped) hmem

end LoxTree
