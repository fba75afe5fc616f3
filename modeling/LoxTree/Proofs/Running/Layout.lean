import LoxTree.Proofs.Parsing.Seam
import LoxTree.Proofs.Running.Lines
import LoxTree.Proofs.Scanning.Respacing

/-!
# The layout of a program does not matter

A text about which the scanner does not complain is scanned, parsed and run like the same tokens
with single spaces between them. The only difference is in lines: in those of tokens and, through
them, in those of complaints.

* `sameRun_of_clean`, `sameRun_of_errors`: such programs do the same in a session.
* `source_respaced`: a text and the respaced text.
-/

namespace LoxTree

open Step Run

variable {g : Int → Int}

/-! ### Runs beside each other -/

/-- The complaints about a program that is not run are written to the output. -/
theorem source_of_errors_written {text : String} {program : Program}
    (hp : Program.ofTokens (Scan.ofSource text).tokens = .ok program) {errors : List Diagnostic}
    (herr : (Scan.ofSource text).errors ++ program.errors = errors) (hne : errors ≠ [])
    (s : Session) :
    ∃ t, Run.source text s = .ok () t ∧ (s.begin errors).Frame t ∧ t.scopes = s.scopes ∧
      t.output = s.output ++ written (errors.map .reported) := by
  obtain ⟨u, hu, hscopes, hsource⟩ := source_begin hp s herr
  obtain ⟨v, hv, hframe, hscopes'⟩ := reportAll_eq_ok errors (u.begin errors)
  obtain ⟨t, ht, hsilent, hscopes''⟩ :=
    note_eq_ok 1 (toString errors.length ++ " static error(s), nothing executed") v
  refine ⟨t, ?_, ((hu.begin errors).toFrame.trans hframe).trans hsilent.toFrame,
    hscopes''.trans (hscopes'.trans hscopes), ?_⟩
  · rw [hsource, if_neg (by simpa using hne), bind_of_ok hv]
    exact ht
  · have hout : v.output = u.output ++ written (errors.map .reported) := by
      rw [reportAll_eq] at hv
      cases hv
      rfl
    rw [hsilent.output, hout, hu.output]

/-- What two runs from the same session have in common if one has its tokens on other lines. -/
structure SameRun (g : Int → Int) (s t t' : Session) : Prop where
  scopes : t'.scopes = t.scopes
  output : ∃ log, t.output = s.output ++ written log ∧
    t'.output = s.output ++ written (log.map (Said.mapLine g))
  runtimeErrors : ∃ added, t.runtimeErrors = s.runtimeErrors ++ added ∧
    t'.runtimeErrors = s.runtimeErrors ++ added.map (Diagnostic.mapLine g)
  staticErrors : t'.staticErrors = t.staticErrors.map (Diagnostic.mapLine g)

section

variable {text text' : String} {p p' : Program}

/-- Runs of programs about which there are complaints. -/
theorem sameRun_of_errors (hp : Program.ofTokens (Scan.ofSource text).tokens = .ok p)
    (hp' : Program.ofTokens (Scan.ofSource text').tokens = .ok p') {errors : List Diagnostic}
    (herr : (Scan.ofSource text).errors ++ p.errors = errors)
    (herr' : (Scan.ofSource text').errors ++ p'.errors = errors.map (Diagnostic.mapLine g))
    (hne : errors ≠ []) (s : Session) :
    ∃ t t', Run.source text s = .ok () t ∧ Run.source text' s = .ok () t' ∧ SameRun g s t t' := by
  have hne' : errors.map (Diagnostic.mapLine g) ≠ [] := by simpa using hne
  obtain ⟨t, ht, hframe, hscopes, hout⟩ := source_of_errors_written hp herr hne s
  obtain ⟨t', ht', hframe', hscopes', hout'⟩ := source_of_errors_written hp' herr' hne' s
  refine ⟨t, t', ht, ht', hscopes'.trans hscopes.symm, ⟨_, hout, ?_⟩, ⟨[], ?_, ?_⟩, ?_⟩
  · rw [hout', List.map_map, List.map_map]
    rfl
  · rw [hframe.runtimeErrors, List.append_nil]
    rfl
  · rw [hframe'.runtimeErrors, List.map_nil, List.append_nil]
    rfl
  · rw [hframe.staticErrors, hframe'.staticErrors]
    rfl

/-- Runs of programs about which there are no complaints. -/
theorem sameRun_of_clean (hline : g 0 = 0)
    (hp : Program.ofTokens (Scan.ofSource text).tokens = .ok p)
    (hp' : Program.ofTokens (Scan.ofSource text').tokens = .ok p')
    (herr : (Scan.ofSource text).errors ++ p.errors = [])
    (herr' : (Scan.ofSource text').errors ++ p'.errors = [])
    (hstmts : p'.statements = p.statements.map (Stmt.relabel g 0)) (s : Session) :
    ∃ t t', Run.source text s = .ok () t ∧ Run.source text' s = .ok () t' ∧ SameRun g s t t' := by
  obtain ⟨u, hu, hscopes, hsource⟩ := source_of_clean hp herr s
  obtain ⟨u', hu', hscopes', hsource'⟩ := source_of_clean hp' herr' s
  have halong : Alongside s.level s.level s.output s.output u u' :=
    ⟨hscopes'.trans hscopes.symm, hu.output, hu'.output, hu.level, hu'.level⟩
  obtain ⟨outcomes, v, v', log, hexec, hexec', hv, -⟩ :=
    executes_alongside (g := g) (k := 0) (.inl rfl) (.inl hline) (made_of_ofTokens hp)
      (scanned_sourceTokens text) globalScope halong
  have htrees : p'.statements.map Stmt.toTree =
      p.statements.map fun stmt => (stmt.relabel g 0).toTree := by
    rw [hstmts, List.map_map]
    rfl
  rw [← htrees] at hexec'
  -- the complaints are recorded behind those of earlier programs
  have hframe : u.Frame v := (hexec.safe (isStatement_of_ofTokens hp)).1
  have hframe' : u'.Frame v' := (hexec'.safe (isStatement_of_ofTokens hp')).1
  refine ⟨_, _, hsource _ _ hexec, hsource' _ _ hexec', hv.scopes, ⟨log, hv.output, hv.output'⟩,
    ⟨outcomes.reduceOption, ?_, ?_⟩, ?_⟩
  · show v.runtimeErrors ++ _ = _
    rw [hframe.runtimeErrors, hu.runtimeErrors]
    rfl
  · show v'.runtimeErrors ++ _ = _
    rw [hframe'.runtimeErrors, hu'.runtimeErrors, List.reduceOption_map]
    rfl
  · show v'.staticErrors = v.staticErrors.map _
    rw [hframe'.staticErrors, hu'.staticErrors, hframe.staticErrors, hu.staticErrors]
    rfl

end

/-! ### Respaced texts -/

/-- A text about which the scanner does not complain and its lexemes with single spaces between
them have the same tokens, the same statements with the same complaints about them, and the same
runs from any session, except for the lines. -/
theorem source_respaced {text : String} (hscan : (Scan.ofSource text).errors = []) (s : Session) :
    ∃ g p p' t t',
      (Scan.ofSource (respaced text)).errors = [] ∧
      (Scan.ofSource (respaced text)).tokens = (Scan.ofSource text).tokens.map (Token.mapLine g) ∧
      Program.ofSource text = .ok p ∧ Program.ofSource (respaced text) = .ok p' ∧
      p'.statements = p.statements.map (Stmt.relabel g 0) ∧
      p'.errors = p.errors.map (Diagnostic.mapLine g) ∧
      Run.source text s = .ok () t ∧ Run.source (respaced text) s = .ok () t' ∧
      SameRun g s t t' := by
  obtain ⟨hscan', g, hline, htokens⟩ := Scan.ofSource_respaced text
  have hend : (sourceEnd text).kind = .eof := rfl
  obtain ⟨p, p', hp, hp', hstmts, herrors⟩ :=
    Program.ofTokens_mapLine (scannerShaped_sourceTokens text) hend g
  rw [← Scan.ofSource_tokens] at hp hp'
  rw [← htokens] at hp'
  have hruns : ∃ t t', Run.source text s = .ok () t ∧ Run.source (respaced text) s = .ok () t' ∧
      SameRun g s t t' := by
    by_cases hclean : p.errors = []
    · refine sameRun_of_clean hline hp hp' ?_ ?_ hstmts s
      · rw [hscan, hclean, List.nil_append]
      · rw [hscan', herrors, hclean, List.nil_append, List.map_nil]
    · refine sameRun_of_errors hp hp' ?_ ?_ hclean s
      · rw [hscan, List.nil_append]
      · rw [hscan', herrors, List.nil_append]
  obtain ⟨t, t', ht, ht', hsame⟩ := hruns
  refine ⟨g, _, _, t, t', hscan', htokens, Program.ofSource_eq hp, Program.ofSource_eq hp', hstmts,
    ?_, ht, ht', hsame⟩
  show (Scan.ofSource (respaced text)).errors ++ p'.errors =
    ((Scan.ofSource text).errors ++ p.errors).map (Diagnostic.mapLine g)
  rw [hscan, hscan', List.nil_append, List.nil_append, herrors]

theorem scan_broken_line :
    Scan.ofSource "print\na;" =
      ⟨[⟨.kwPrint, "print", none, 1⟩, ⟨.identifier, "a", none, 2⟩, ⟨.semicolon, ";", none, 2⟩,
        Token.eof 2], [], 2⟩ := by
  have hsegments : segments "print\na;".toList = [.token .kwPrint ['p', 'r', 'i', 'n', 't'] none,
      .newline, .token .identifier ['a'] none, .token .semicolon [';'] none] :=
    segments_eq_cons rfl (segments_eq_cons rfl (segments_eq_cons rfl (segments_eq_cons rfl
      segments.eq_1)))
  unfold Scan.ofSource
  rw [hsegments]
  rfl

/-- A complaint on the second line stands on the first one if the line feed is a space. -/
theorem source_respaced_broken_line :
    respaced "print\na;" = "print a ;" ∧
      ∃ g t t', Run.source "print\na;" (Session.start 0) = .ok () t ∧
        Run.source "print a ;" (Session.start 0) = .ok () t' ∧ SameRun g (Session.start 0) t t' ∧
        t.runtimeErrors = [.undefinedName ⟨.identifier, "a", none, 2⟩] ∧
        t'.runtimeErrors = [.undefinedName ⟨.identifier, "a", none, g 2⟩] := by
  have hrespaced : respaced "print\na;" = "print a ;" := by
    unfold respaced
    rw [scan_broken_line]
    decide
  have hscan : (Scan.ofSource "print\na;").errors = [] := by
    rw [scan_broken_line]
  have hrun : ∃ t, Run.source "print\na;" (Session.start 0) = .ok () t ∧
      t.runtimeErrors = [.undefinedName ⟨.identifier, "a", none, 2⟩] := by
    unfold Run.source
    rw [scan_broken_line]
    exact ⟨_, rfl, rfl⟩
  obtain ⟨u, hu, hone⟩ := hrun
  obtain ⟨g, -, -, t, t', -, -, -, -, -, -, ht, ht', hsame⟩ :=
    source_respaced hscan (Session.start 0)
  rw [hu] at ht
  cases ht
  rw [hrespaced] at ht'
  refine ⟨hrespaced, g, u, t', hu, ht', hsame, hone, ?_⟩
  obtain ⟨added, hadded, hadded'⟩ := hsame.runtimeErrors
  rw [hone] at hadded
  have hone' : added = [.undefinedName ⟨.identifier, "a", none, 2⟩] := hadded.symm
  rw [hadded', hone']
  rfl

end LoxTree
