import LoxTree.Proofs.Parsing.Recognition
import LoxTree.Proofs.Parsing.Seam
import LoxTree.Proofs.Running.Lines
import LoxTree.Proofs.Scanning.Joining

/-!
# Running programs one by one and all at once

Two programs that are run one after the other do the same as their texts joined at a line feed and
run as one program, as long as there are no complaints about either text. A program about which
there are none is empty or ends with a semicolon, so the parser finds the seam; the second program
stands further down in the joined text, and that shows only in the lines of its complaints.

* `joined_spells`: the joined text spells the statements of both programs, those of the second on
  other lines.
* `source_append_of_clean`: running the joined text is running both programs.
-/

namespace LoxTree

open Step Run

/-! ### The program of the joined text -/

/-- A source text spells a program, and there are no complaints about it. -/
structure Spells (text : String) (program : Program) : Prop where
  parse : Program.ofTokens (Scan.ofSource text).tokens = .ok program
  scanErrors : (Scan.ofSource text).errors = []
  errors : program.errors = []

theorem spells_of_ofSource {text : String} {program : Program}
    (h : Program.ofSource text = .ok program) (herr : program.errors = []) :
    Spells text program := by
  obtain ⟨p, hp, -⟩ := made_of_ofSource text
  rw [Program.ofSource_eq hp] at h
  cases h
  obtain ⟨hscan, hparse⟩ := List.append_eq_nil_iff.1 herr
  refine ⟨?_, hscan, herr⟩
  rw [hp, hscan]
  rfl

theorem Spells.made {text : String} {program : Program} (h : Spells text program) :
    ∀ stmt ∈ program.statements, stmt.Made (sourceTokens text) nestingRoom := by
  obtain ⟨p, hp, hmade⟩ := made_of_ofSource text
  rw [h.parse] at hp
  cases hp
  exact hmade

theorem Spells.isStatement {text : String} {program : Program} (h : Spells text program) :
    ∀ t ∈ program.statements.map Stmt.toTree, t.IsStatement := by
  intro t ht
  obtain ⟨stmt, hmem, rfl⟩ := List.mem_map.1 ht
  exact (h.made stmt hmem).isStatement (scanned_sourceTokens text)

/-- The grammar derives the statements of a program from the tokens of a text that spells it. -/
theorem Spells.grammar {text : String} {program : Program} (h : Spells text program) :
    Grammar.Program (sourceTokens text) (program.statements.map Stmt.toTree) := by
  have hend : (sourceEnd text).kind = .eof := rfl
  obtain ⟨stmts, s', hrun, hprogram⟩ := Program.exists_run (scannerShaped_sourceTokens text) hend
  have hparse := h.parse
  rw [Scan.ofSource_tokens, hprogram] at hparse
  cases hparse
  exact program_of_run hrun h.errors

/-- A text that spells a program is empty or its last token is a semicolon. -/
theorem Spells.semicolon {text : String} {program : Program} (h : Spells text program) :
    ∀ semi ∈ (sourceTokens text).getLast?, semi.kind = .semicolon :=
  h.grammar.semicolon_of_getLast?

/-- A text that spells a program has closed strings only. -/
theorem Spells.isClosed {text : String} {program : Program} (h : Spells text program) :
    ∀ s ∈ segments text.toList, s.IsClosed := by
  have hnil : complaintsOf 1 (segments text.toList) = [] := by
    have hscan := h.scanErrors
    unfold Scan.ofSource at hscan
    rwa [Scan.ofSegments_eq] at hscan
  -- an open string would have been a complaint
  have hnone : ∀ l, .lexical .unterminatedString l ∉ complaintsOf 1 (segments text.toList) := by
    intro l hl
    rw [hnil] at hl
    cases hl
  exact isClosed_of_complaintsOf hnone

/-- The joined text spells the statements of both programs, those of the second on other lines. -/
theorem joined_spells {text₁ text₂ : String} {p₁ p₂ : Program} (h₁ : Spells text₁ p₁)
    (h₂ : Spells text₂ p₂) :
    ∃ p, Spells (text₁ ++ "\n" ++ text₂) p ∧
      p.statements = p₁.statements ++ p₂.statements.map (Stmt.relabel (below text₁) p₁.nodes) := by
  obtain ⟨htokens, herrors⟩ := Scan.ofSource_append h₁.isClosed text₂
  have hend₁ : (sourceEnd text₁).kind = .eof := rfl
  have hend₂ : (sourceEnd text₂).kind = .eof := rfl
  obtain ⟨q₁, q₂, q, hq₁, hq₂, hq, hstmts, hqerrors⟩ :=
    Program.ofTokens_append (scannerShaped_sourceTokens text₁) (scannerShaped_sourceTokens text₂)
      hend₁ hend₂ h₁.semicolon (below text₁)
  rw [← Scan.ofSource_tokens, h₁.parse] at hq₁
  rw [← Scan.ofSource_tokens, h₂.parse] at hq₂
  cases hq₁
  cases hq₂
  rw [← Scan.ofSource_tokens, ← htokens] at hq
  refine ⟨q, ⟨hq, ?_, ?_⟩, hstmts⟩
  · rw [herrors, h₁.scanErrors, h₂.scanErrors]
    rfl
  · rw [hqerrors, h₁.errors, h₂.errors]
    rfl

/-! ### Running both -/

/-- A silent step of a session that does not trace does nothing but change the scopes. -/
theorem Session.Silent.eq_of_quiet {s u : Session} (h : s.Silent u) (hscopes : u.scopes = s.scopes)
    (hq : s.level ≤ 0) : u = s := by
  obtain ⟨⟨hlevel, hopen, hstatic, hruntime, hquiet⟩, houtput⟩ := h
  obtain ⟨htrace, hstderr⟩ := hquiet hq
  cases u
  cases s
  simp_all

/-- Running a program about which there are no complaints is running its statements. -/
theorem source_of_spells {text : String} {program : Program} (h : Spells text program)
    {s u : Session} (hq : s.level ≤ 0) {outcomes : List (Option Diagnostic)}
    (hexec : Executes globalScope (s.begin []) (program.statements.map Stmt.toTree) outcomes u) :
    Run.source text s =
      .ok () { u with runtimeErrors := u.runtimeErrors ++ outcomes.reduceOption } := by
  have herr : (Scan.ofSource text).errors ++ program.errors = [] := by
    rw [h.scanErrors, h.errors]
    rfl
  obtain ⟨v, hv, hscopes, hsource⟩ := source_of_clean h.parse herr s
  have hq' : (s.begin []).level ≤ 0 := hq
  have heq : v = s.begin [] := hv.eq_of_quiet hscopes hq'
  exact hsource outcomes u (heq ▸ hexec)

/-- Sessions that differ in the scopes, the output and the runtime complaints at most. -/
structure Session.Alike (s s' : Session) : Prop where
  level : s'.level = s.level
  traceOpen : s'.traceOpen = s.traceOpen
  trace : s'.trace = s.trace
  stderr : s'.stderr = s.stderr
  staticErrors : s'.staticErrors = s.staticErrors

/-- Statements that are run in sessions which do not trace keep them alike. -/
theorem Session.Alike.frame {s s' t t' : Session} (h : s.Alike s') (hq : s.level ≤ 0)
    (ht : s.Frame t) (ht' : s'.Frame t') : t.Alike t' := by
  obtain ⟨htrace, hstderr⟩ := ht.quiet hq
  obtain ⟨htrace', hstderr'⟩ := ht'.quiet (h.level ▸ hq)
  refine ⟨?_, ?_, ?_, ?_, ?_⟩
  · rw [ht'.level, h.level, ht.level]
  · rw [ht'.traceOpen, h.traceOpen, ht.traceOpen]
  · rw [htrace', h.trace, htrace]
  · rw [hstderr', h.stderr, hstderr]
  · rw [ht'.staticErrors, h.staticErrors, ht.staticErrors]

theorem Session.Alike.eq {s s' : Session} {out : String} {errors : List Diagnostic}
    (h : s.Alike s') (hscopes : s'.scopes = s.scopes) (hout : s'.output = out)
    (herr : s'.runtimeErrors = errors) :
    s' = { s with output := out, runtimeErrors := errors } := by
  obtain ⟨hlevel, hopen, htrace, hstderr, hstatic⟩ := h
  cases s'
  cases s
  simp_all

/-- In a session that does not trace, two programs about which there are no complaints are run one
after the other, and their texts joined at a line feed as one program. There are no complaints about
the joined text, and its run ends like the two runs, except that the complaints of the second
program stand further down by one more than the number of line feeds in the first text. -/
theorem source_append_of_clean {s : Session} (hlevel : s.level ≤ 0) {text₁ text₂ : String}
    {p₁ p₂ : Program} (h₁ : Program.ofSource text₁ = .ok p₁) (hclean₁ : p₁.errors = [])
    (h₂ : Program.ofSource text₂ = .ok p₂) (hclean₂ : p₂.errors = []) :
    ∃ p middle final joined log,
      Program.ofSource (text₁ ++ "\n" ++ text₂) = .ok p ∧ p.errors = [] ∧
      Run.source text₁ s = .ok () middle ∧ Run.source text₂ middle = .ok () final ∧
      Run.source (text₁ ++ "\n" ++ text₂) s = .ok () joined ∧
      final.output = middle.output ++ written log ∧
      final.runtimeErrors = middle.runtimeErrors ++ complaints log ∧
      joined =
        { final with
          output := middle.output ++ written (log.map (Said.mapLine (below text₁)))
          runtimeErrors := middle.runtimeErrors ++
            (complaints log).map (Diagnostic.mapLine (below text₁)) } := by
  have hs₁ := spells_of_ofSource h₁ hclean₁
  have hs₂ := spells_of_ofSource h₂ hclean₂
  obtain ⟨p, hp, hstmts⟩ := joined_spells hs₁ hs₂
  have htrees : p.statements.map Stmt.toTree = p₁.statements.map Stmt.toTree ++
      p₂.statements.map fun stmt => (stmt.relabel (below text₁) p₁.nodes).toTree := by
    rw [hstmts, List.map_append, List.map_map]
    rfl
  -- the first program
  obtain ⟨o₁, u, hexec₁, -⟩ := exists_executes hs₁.isStatement globalScope (s.begin [])
  have hframe₁ := (hexec₁.safe hs₁.isStatement).1
  have hmiddle := source_of_spells hs₁ hlevel hexec₁
  have hu : u.level ≤ 0 := hframe₁.level ▸ hlevel
  -- the second program, after the first one and behind it in the joined text
  let middle : Session := { u with runtimeErrors := u.runtimeErrors ++ o₁.reduceOption }
  have hbeside : Beside u.output u.output (middle.begin []) u := ⟨rfl, rfl, rfl, hu, hu⟩
  obtain ⟨o₂, v, v', log, hexec₂, hexec₂', hb, hlog⟩ :=
    executes_lines (g := below text₁) (k := p₁.nodes) hs₂.made (scanned_sourceTokens text₂)
      globalScope hbeside
  have hfinal := source_of_spells hs₂ (s := middle) hu hexec₂
  have hexec := hexec₁.append hexec₂'
  rw [← htrees] at hexec
  have hjoined := source_of_spells hp hlevel hexec
  -- what is left alone is alike
  have hframe₂ := (hexec₂.safe hs₂.isStatement).1
  have hframe₂' : u.Frame v' := by
    refine (hexec₂'.safe fun t ht => hp.isStatement t ?_).1
    rw [htrees]
    exact List.mem_append_right _ ht
  have halike : v.Alike v' := by
    have hstart : (middle.begin []).Alike u := ⟨rfl, rfl, rfl, rfl, hframe₁.staticErrors⟩
    exact hstart.frame hu hframe₂ hframe₂'
  refine ⟨_, _, _, _, log, Program.ofSource_eq hp.parse, ?_, hmiddle, hfinal, hjoined, hb.output,
    ?_, ?_⟩
  · show (Scan.ofSource (text₁ ++ "\n" ++ text₂)).errors ++ p.errors = []
    rw [hp.scanErrors, hp.errors]
    rfl
  · show v.runtimeErrors ++ o₂.reduceOption = _
    rw [hframe₂.runtimeErrors, hlog]
    rfl
  · refine Session.Alike.eq ⟨halike.level, halike.traceOpen, halike.trace, halike.stderr,
      halike.staticErrors⟩ hb.scopes hb.output' ?_
    show v'.runtimeErrors ++ (o₁ ++ o₂.map _).reduceOption = _
    rw [hframe₂'.runtimeErrors, List.reduceOption_append, List.reduceOption_map, hlog,
      ← List.append_assoc]

theorem scan_declaration :
    Scan.ofSource "var a;\n" =
      ⟨[⟨.kwVar, "var", none, 1⟩, ⟨.identifier, "a", none, 1⟩, ⟨.semicolon, ";", none, 1⟩,
        Token.eof 2], [], 2⟩ := by
  have hsegments : segments "var a;\n".toList = [.token .kwVar ['v', 'a', 'r'] none, .blank ' ',
      .token .identifier ['a'] none, .token .semicolon [';'] none, .newline] :=
    segments_eq_cons rfl (segments_eq_cons rfl (segments_eq_cons rfl (segments_eq_cons rfl
      (segments_eq_cons rfl segments.eq_1))))
  unfold Scan.ofSource
  rw [hsegments]
  rfl

theorem scan_printing :
    Scan.ofSource "print b;" =
      ⟨[⟨.kwPrint, "print", none, 1⟩, ⟨.identifier, "b", none, 1⟩, ⟨.semicolon, ";", none, 1⟩,
        Token.eof 1], [], 1⟩ := by
  have hsegments : segments "print b;".toList = [.token .kwPrint ['p', 'r', 'i', 'n', 't'] none,
      .blank ' ', .token .identifier ['b'] none, .token .semicolon [';'] none] :=
    segments_eq_cons rfl (segments_eq_cons rfl (segments_eq_cons rfl (segments_eq_cons rfl
      segments.eq_1)))
  unfold Scan.ofSource
  rw [hsegments]
  rfl

/-- A complaint on the first line of the second program stands on the third line of the joined
text. -/
theorem source_append_of_clean_undefined :
    ∃ middle final joined, Run.source "var a;\n" (Session.start 0) = .ok () middle ∧
      Run.source "print b;" middle = .ok () final ∧
      Run.source ("var a;\n" ++ "\n" ++ "print b;") (Session.start 0) = .ok () joined ∧
      final.runtimeErrors = [.undefinedName ⟨.identifier, "b", none, 1⟩] ∧
      joined.runtimeErrors = [.undefinedName ⟨.identifier, "b", none, 3⟩] ∧
      joined.scopes = final.scopes := by
  have hfirst : ∃ p, Program.ofSource "var a;\n" = .ok p ∧ p.errors = [] := by
    unfold Program.ofSource
    rw [scan_declaration]
    exact ⟨_, rfl, rfl⟩
  have hsecond : ∃ p, Program.ofSource "print b;" = .ok p ∧ p.errors = [] := by
    unfold Program.ofSource
    rw [scan_printing]
    exact ⟨_, rfl, rfl⟩
  have hrun : ∃ middle, Run.source "var a;\n" (Session.start 0) = .ok () middle ∧
      ∃ final, Run.source "print b;" middle = .ok () final ∧ middle.runtimeErrors = [] ∧
        final.runtimeErrors = [.undefinedName ⟨.identifier, "b", none, 1⟩] := by
    unfold Run.source
    rw [scan_declaration, scan_printing]
    exact ⟨_, rfl, _, rfl, rfl, rfl⟩
  obtain ⟨p₁, h₁, hclean₁⟩ := hfirst
  obtain ⟨p₂, h₂, hclean₂⟩ := hsecond
  obtain ⟨m, hm, f, hf, hnone, hone⟩ := hrun
  have hlevel : (Session.start 0).level ≤ 0 := Int.le_refl 0
  obtain ⟨-, middle, final, joined, log, -, -, hmiddle, hfinal, hjoined, -, hlog, heq⟩ :=
    source_append_of_clean hlevel h₁ hclean₁ h₂ hclean₂
  rw [hm] at hmiddle
  cases hmiddle
  rw [hf] at hfinal
  cases hfinal
  refine ⟨m, f, joined, hm, hf, hjoined, hone, ?_, ?_⟩
  · rw [hone, hnone, List.nil_append] at hlog
    rw [heq, hnone, ← hlog]
    rfl
  · rw [heq]

end LoxTree
