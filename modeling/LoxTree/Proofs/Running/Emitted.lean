import LoxTree.CommandLine
import LoxTree.Proofs.Encoding.Files
import LoxTree.Proofs.Running.Incremental
import LoxTree.Proofs.Running.Layout

/-!
# Running a program and running its tree

A program can be run from its source text, or its tree can be written to a file and that file be
run. Both ways do the same.

* `Asks`: arguments that ask for a task without tracing.
* `Program.WithinLimits`: programs whose trees can be written to a file and read back.
* `outcome_runProgram`, `outcome_runTree`, `outcome_emitTree`: what each command leaves behind.
* `outcome_of_errors`: what all of them leave behind if there are complaints about the program.
* `source_eq_tree`: a session does the same with a source text and with its tree.
* `runCommand_emitted`: the two ways to run a program.
-/

namespace LoxTree

open Step

/-! ### Literals of parsed trees -/

theorem Tree.IsExpression.isLox_of_mem_literals {t : Tree} (h : t.IsExpression) :
    ∀ v ∈ t.literals, v.isLox = true := by
  induction h with
  | literal hv => simpa [literals] using hv
  | grouping _ ih => simpa [literals, parts, fields] using ih
  | unary _ _ ih => simpa [literals, parts, fields] using ih
  | binary _ _ _ ihl ihr => simpa [literals, parts, fields, or_imp, forall_and] using ⟨ihl, ihr⟩
  | reference => simp [literals, parts, fields]
  | assign _ _ ih => simpa [literals, parts, fields] using ih

theorem Tree.IsStatement.isLox_of_mem_literals {t : Tree} (h : t.IsStatement) :
    ∀ v ∈ t.literals, v.isLox = true := by
  cases h with
  | expression he => simpa [literals, parts, fields] using he.isLox_of_mem_literals
  | print he => simpa [literals, parts, fields] using he.isLox_of_mem_literals
  | declare => simp [literals, parts, fields]
  | declareAs _ he => simpa [literals, parts, fields] using he.isLox_of_mem_literals

/-- The tree of a program: the list of its statements. -/
def Program.tree (p : Program) : Tree :=
  .list (p.statements.map Stmt.toTree)

/-- A program whose tree can be written to a file and read back: there is room for its levels, and
no line has more digits than JSON readers take for an integer. -/
structure Program.WithinLimits (p : Program) : Prop where
  depth : 2 * p.tree.depth ≤ nestingRoom
  lines : ∀ tok ∈ p.tree.tokens, (Nat.toDigits 10 tok.line.natAbs).length ≤ Json.maxIntegerDigits

/-! ### Steps of commands -/

/-- The file that an argument names holds a source text. -/
def Disk.Holds (disk : Disk) (file source : String) : Prop :=
  ∃ spot bytes, disk.locate (FilePath.ofText file) = .file spot bytes ∧
    Text.ofBytes? bytes = some source

/-- Where the tree of a program is written. -/
def treePath (file : String) : FilePath :=
  (FilePath.ofText file).extend ".ast.json"

namespace Job

variable {c : Console}

theorem readSource_eq {file source : String} (h : c.disk.Holds file source) :
    readSource file c = .ok source c := by
  obtain ⟨spot, bytes, hfile, hsource⟩ := h
  unfold readSource
  rw [bind_of_ok (rfl : (get : Job Console) c = .ok c c), hfile]
  dsimp only
  rw [hsource]
  rfl

theorem writeFile_eq {p : FilePath} {spot : Spot} (h : (c.disk.locate p).spot? = some spot)
    (text : String) :
    writeFile p text c = .ok () { c with disk := c.disk.put spot text.toUTF8 } := by
  unfold writeFile
  rw [bind_of_ok (rfl : (get : Job Console) c = .ok c c)]
  cases hplace : c.disk.locate p with
  | file s bytes =>
    rw [hplace] at h
    cases h
    rfl
  | vacant s =>
    rw [hplace] at h
    cases h
    rfl
  | _ =>
    rw [hplace] at h
    cases h

/-- A session that does not trace leaves its output and its complaints behind. -/
theorem inSession_eq {α : Type} {s s' : Session} {act : Run α} {a : α} (h : act s = .ok a s')
    (hquiet : s'.level ≤ 0) :
    inSession s act c =
      .ok s' { c with stdout := c.stdout ++ s'.output, stderr := c.stderr ++ s'.stderr } := by
  have hlevel : ¬ 0 < s'.level := by omega
  unfold inSession
  rw [h]
  show (finish s' >>= fun _ => pure s') c = _
  unfold finish
  rw [if_neg hlevel]
  rfl

theorem forM_writeLine (errors : List Diagnostic) :
    (errors.forM fun d => writeLine d.text) c =
      .ok () { c with stdout := c.stdout ++ written (errors.map .reported) } := by
  induction errors generalizing c with
  | nil =>
    show EStateM.Result.ok () c = .ok () { c with stdout := c.stdout ++ "" }
    rw [String.append_empty]
  | cons d errors ih =>
    show (writeLine d.text >>= fun _ => errors.forM fun d => writeLine d.text) c = _
    rw [bind_of_ok (rfl : writeLine d.text c = .ok () _), ih, List.map_cons, written]
    show EStateM.Result.ok () { c with stdout := c.stdout ++ (d.text ++ "\n") ++ _ } = _
    rw [String.append_assoc]
    rfl

section

variable {source : String} {p : Program} (h : Program.ofSource source = .ok p)

include h

theorem parseSource_of_clean (herr : p.errors = []) :
    parseSource source c = .ok (p.statements.map Stmt.toTree) c := by
  unfold parseSource
  rw [h, bind_of_ok (rfl : ofFault (.ok p) c = .ok p c), herr]
  rfl

/-- The complaints about a program are written to the output. -/
theorem parseSource_of_errors (herr : p.errors ≠ []) :
    parseSource source c = .error (.exit staticErrorStatus)
      { c with stdout := c.stdout ++ written (p.errors.map .reported) } := by
  have hfull : ¬ p.errors.isEmpty = true := by simpa using herr
  unfold parseSource
  rw [h, bind_of_ok (rfl : ofFault (.ok p) c = .ok p c), if_neg hfull,
    bind_of_ok (forM_writeLine p.errors)]
  rfl

end

end Job

/-! ### Commands -/

/-- Two commands end alike: with the same status, output and complaints. -/
structure Outcome.Alike (o o' : Outcome) : Prop where
  status : o.status = o'.status
  stdout : o.console.stdout = o'.console.stdout
  stderr : o.console.stderr = o'.console.stderr

/-- Arguments ask for a task, without tracing. -/
def Asks (args : List String) (task : Task) : Prop :=
  ∃ o, Options.parse args = .ok o ∧ o.task = task ∧ o.verbosity = 0

namespace Job

/-- The job of a task without tracing. -/
def quiet (input : String) : Task → Job Unit
  | .emitTree file => emitTree file
  | .printTree file => printTree file
  | .runTree file => runTree (Session.start 0) file
  | .runProgram file => runProgram (Session.start 0) file
  | .shell => runShell (Session.start 0) input

/-- What a job leaves behind. -/
def outcome (job : Job Unit) (disk : Disk) : Outcome :=
  match job { disk } with
  | .ok _ console => ⟨.ok 0, console⟩
  | .error (.exit status) console => ⟨.ok status, console⟩
  | .error (.fault f) console => ⟨.error f, console⟩

end Job

theorem Asks.runCommand_eq {args : List String} {task : Task} (h : Asks args task) (disk : Disk)
    (input : String) : runCommand args disk input = (Job.quiet input task).outcome disk := by
  obtain ⟨o, hparse, rfl, hlevel⟩ := h
  unfold runCommand Job.ofArguments
  rw [hparse]
  show (Job.ofOptions o input).outcome disk = _
  unfold Job.ofOptions
  cases htask : o.task with
  | emitTree | printTree => rfl
  | runTree | runProgram | shell =>
    rw [hlevel]
    rfl

theorem Job.outcome_of_ok {job : Job Unit} {disk : Disk} {c : Console}
    (h : job { disk } = .ok () c) : job.outcome disk = ⟨.ok 0, c⟩ := by
  unfold outcome
  rw [h]

theorem Job.outcome_of_exit {job : Job Unit} {disk : Disk} {status : Nat} {c : Console}
    (h : job { disk } = .error (.exit status) c) : job.outcome disk = ⟨.ok status, c⟩ := by
  unfold outcome
  rw [h]

section

variable {disk : Disk} {file source : String} (hfile : disk.Holds file source)

include hfile

/-- What running a program leaves behind. -/
theorem outcome_runProgram {s : Session} (hrun : Run.source source (Session.start 0) = .ok () s)
    (hquiet : s.level ≤ 0) :
    (Job.runProgram (Session.start 0) file).outcome disk =
      ⟨.ok (if s.hadError then 65 else if s.hadRuntimeError then 70 else 0),
        { disk, stdout := s.output, stderr := s.stderr }⟩ := by
  have hread := Job.readSource_eq (c := { disk }) hfile
  have hsession := Job.inSession_eq (c := { disk }) hrun hquiet
  have hjob : Job.runProgram (Session.start 0) file { disk } =
      (do if s.hadError then throw (.exit Job.staticErrorStatus)
          Job.endWithStatus s : Job Unit) { disk, stdout := s.output, stderr := s.stderr } := by
    unfold Job.runProgram
    rw [bind_of_ok hread, bind_of_ok hsession, String.empty_append, String.empty_append]
  unfold Job.outcome
  rw [hjob]
  unfold Job.endWithStatus
  cases s.hadError with
  | true => rfl
  | false => cases s.hadRuntimeError <;> rfl

theorem outcome_runProgram_of_errors {p : Program} (hp : Program.ofSource source = .ok p)
    (herr : p.errors ≠ []) :
    (Job.runProgram (Session.start 0) file).outcome disk =
      ⟨.ok 65, { disk, stdout := written (p.errors.map .reported) }⟩ := by
  obtain ⟨q, hq, -⟩ := made_of_ofSource source
  rw [Program.ofSource_eq hq] at hp
  cases hp
  obtain ⟨s, hs, hframe, -, houtput⟩ := source_of_errors_written hq rfl herr (Session.start 0)
  have hlevel : s.level = 0 := hframe.level
  have hstderr : s.stderr = "" := (hframe.quiet (Int.le_refl 0)).2
  have hstatic : s.staticErrors = (Scan.ofSource source).errors ++ q.errors := hframe.staticErrors
  have herror : s.hadError = true := by
    unfold Session.hadError
    rw [hstatic]
    simpa using herr
  rw [outcome_runProgram hfile hs (by omega), herror, hstderr, houtput]
  show Outcome.mk (.ok 65) (Console.mk _ ("" ++ _) "") = _
  rw [String.empty_append]

/-- What running a tree leaves behind. -/
theorem outcome_runTree {data : Value} {t : Tree} {s : Session} {errors : List Diagnostic}
    (hdata : Json.read source = .ok data) (htree : Tree.decode nestingRoom data = .ok t)
    (hrun : Run.tree globalScope t (Session.start 0) = .ok errors s) (hquiet : s.level ≤ 0) :
    (Job.runTree (Session.start 0) file).outcome disk =
      ⟨.ok (if s.hadRuntimeError then 70 else 0),
        { disk, stdout := s.output, stderr := s.stderr }⟩ := by
  have hread := Job.readSource_eq (c := { disk }) hfile
  have hsession := Job.inSession_eq (c := { disk }) hrun hquiet
  have hjob : Job.runTree (Session.start 0) file { disk } =
      Job.endWithStatus s { disk, stdout := s.output, stderr := s.stderr } := by
    unfold Job.runTree
    rw [bind_of_ok hread, hdata, bind_of_ok (rfl : Job.ofFault (.ok data) { disk } = .ok data _),
      htree, bind_of_ok (rfl : Job.ofFault (.ok t) { disk } = .ok t _), bind_of_ok hsession,
      String.empty_append, String.empty_append]
  unfold Job.outcome
  rw [hjob]
  unfold Job.endWithStatus
  cases s.hadRuntimeError <;> rfl

/-- Writing the tree of a program about which there are no complaints puts it into a file. -/
theorem outcome_emitTree {p : Program} {data : Value} {target : Spot}
    (hp : Program.ofSource source = .ok p) (herr : p.errors = [])
    (hdata : p.tree.encode nestingRoom = .ok data)
    (htarget : (disk.locate (treePath file)).spot? = some target) :
    (Job.emitTree file).outcome disk =
      ⟨.ok 0,
        { disk := disk.put target (Json.writeIndented data).toUTF8
          stdout := (treePath file).text ++ "\n" }⟩ := by
  have hread := Job.readSource_eq (c := { disk }) hfile
  have hparse := Job.parseSource_of_clean (c := { disk }) hp herr
  have hwrite := Job.writeFile_eq (c := { disk }) htarget (Json.writeIndented data)
  have hdata : (Tree.list (p.statements.map Stmt.toTree)).encode nestingRoom = .ok data := hdata
  refine Job.outcome_of_ok ?_
  unfold Job.emitTree
  rw [bind_of_ok hread, bind_of_ok hparse, hdata,
    bind_of_ok (rfl : Job.ofFault (.ok data) { disk } = .ok data _)]
  show (Job.writeFile (treePath file) (Json.writeIndented data) >>= fun _ => _) _ = _
  rw [bind_of_ok hwrite]
  show EStateM.Result.ok () (Console.mk _ ("" ++ _) "") = _
  rw [String.empty_append]
  rfl

/-- If there are complaints about a program, they are all that is left behind, whether it is to be
run or its tree to be written or printed. -/
theorem outcome_of_errors {p : Program} (hp : Program.ofSource source = .ok p)
    (herr : p.errors ≠ []) :
    ∃ o : Outcome, o.status = .ok 65 ∧ o.console.disk = disk ∧
      (Job.runProgram (Session.start 0) file).outcome disk = o ∧
      (Job.emitTree file).outcome disk = o ∧ (Job.printTree file).outcome disk = o := by
  have hread := Job.readSource_eq (c := { disk }) hfile
  have hparse := Job.parseSource_of_errors (c := { disk }) hp herr
  rw [String.empty_append] at hparse
  refine ⟨_, rfl, rfl, outcome_runProgram_of_errors hfile hp herr, Job.outcome_of_exit ?_,
    Job.outcome_of_exit ?_⟩
  · unfold Job.emitTree
    rw [bind_of_ok hread, bind_of_error hparse]
    rfl
  · unfold Job.printTree
    rw [bind_of_ok hread, bind_of_error hparse]
    rfl

end

/-! ### The two ways to run a program -/

theorem Program.WithinLimits.storable {p : Program} (h : p.WithinLimits)
    (htrees : ∀ t ∈ p.statements.map Stmt.toTree, t.IsStatement) : p.tree.Storable := by
  refine ⟨h.depth, fun v hv => ?_, h.lines⟩
  obtain ⟨part, hpart, hv⟩ := Tree.exists_mem_parts_of_mem_literals (by simp [Program.tree]) hv
  exact (htrees part hpart).isLox_of_mem_literals v hv

theorem not_isEmpty_reduceOption (outcomes : List (Option Diagnostic)) :
    (!outcomes.reduceOption.isEmpty) = outcomes.any Option.isSome := by
  induction outcomes with
  | nil => rfl
  | cons o outcomes ih =>
    cases o with
    | none => exact ih
    | some d => rfl

/-- A program about which there are no complaints does the same from its source text and from its
tree: it attempts its statements in turn. -/
theorem source_eq_tree {source : String} {p : Program} (hp : Program.ofSource source = .ok p)
    (herr : p.errors = []) :
    ∃ outcomes s s', Executes globalScope (Session.start 0) (p.statements.map Stmt.toTree) outcomes
        s ∧
      Run.source source (Session.start 0) = .ok () s' ∧
      Run.tree globalScope p.tree (Session.start 0) = .ok outcomes.reduceOption s' ∧
      s'.level = 0 ∧ s'.hadError = false ∧
      s'.hadRuntimeError = outcomes.any Option.isSome := by
  have hspells := spells_of_ofSource hp herr
  obtain ⟨outcomes, s, hexec, -⟩ :=
    exists_executes hspells.isStatement globalScope (Session.start 0)
  obtain ⟨hframe, -⟩ := hexec.safe hspells.isStatement
  have hquiet : (Session.start 0).level ≤ 0 := Int.le_refl 0
  obtain ⟨u, hsilent, hscopes, htree⟩ :=
    statements_eq globalScope (p.statements.map Stmt.toTree) (Session.start 0)
  rw [hsilent.eq_of_quiet hscopes hquiet] at htree
  refine ⟨outcomes, s, _, hexec, source_of_spells hspells hquiet hexec, htree outcomes s hexec,
    hframe.level, ?_, ?_⟩
  · show (!s.staticErrors.isEmpty) = false
    rw [hframe.staticErrors]
    rfl
  · show (!(s.runtimeErrors ++ outcomes.reduceOption).isEmpty) = _
    rw [hframe.runtimeErrors]
    exact not_isEmpty_reduceOption outcomes

/-- Writing the tree of a program to a file and running that file does what running the program
does. If there are complaints about the program, all commands on it do the same, and no file is
written. Otherwise its tree is written to the file beside it, and running that file prints the same
and ends with the same status, which tells whether a statement failed. -/
theorem runCommand_emitted {disk : Disk} {file source : String} (hfile : disk.Holds file source)
    {runArgs emitArgs printArgs : List String} (hrun : Asks runArgs (.runProgram file))
    (hemit : Asks emitArgs (.emitTree file)) (hprint : Asks printArgs (.printTree file))
    (input : String) :
    ((runCommand runArgs disk input).status = .ok 65 →
      runCommand emitArgs disk input = runCommand runArgs disk input ∧
      runCommand printArgs disk input = runCommand runArgs disk input ∧
      (runCommand runArgs disk input).console.disk = disk) ∧
    ((runCommand runArgs disk input).status ≠ .ok 65 →
      (∀ p, Program.ofSource source = .ok p → p.WithinLimits) →
      (disk.locate (treePath file)).spot?.isSome →
      (runCommand emitArgs disk input).status = .ok 0 ∧
      (∀ emitted treeArgs, FilePath.ofText emitted = treePath file →
        Asks treeArgs (.runTree emitted) →
        (runCommand treeArgs (runCommand emitArgs disk input).console.disk input).Alike
          (runCommand runArgs disk input)) ∧
      ∃ p outcomes s, Program.ofSource source = .ok p ∧ p.errors = [] ∧
        Executes globalScope (Session.start 0) (p.statements.map Stmt.toTree) outcomes s ∧
        (runCommand runArgs disk input).status =
          .ok (if outcomes.any Option.isSome then 70 else 0)) := by
  obtain ⟨q, hq, -⟩ := made_of_ofSource source
  obtain ⟨p, hp⟩ : ∃ p, Program.ofSource source = .ok p := ⟨_, Program.ofSource_eq hq⟩
  rw [hrun.runCommand_eq, hemit.runCommand_eq, hprint.runCommand_eq, Job.quiet, Job.quiet,
    Job.quiet]
  by_cases herr : p.errors = []
  · obtain ⟨outcomes, s, s', hexec, hsource, htree, hlevel, herror, hfailed⟩ :=
      source_eq_tree hp herr
    have hran := outcome_runProgram hfile hsource (by omega)
    rw [herror, hfailed, if_neg (by decide)] at hran
    rw [hran]
    constructor
    · -- the statements alone never give the status of complaints
      intro hstatus
      dsimp only at hstatus
      split at hstatus <;> cases hstatus
    · intro _ hlimits hwritable
      obtain ⟨target, htarget⟩ := Option.isSome_iff_exists.1 hwritable
      obtain ⟨data, hencode, hbytes, hread, hdecode⟩ :=
        ((hlimits p hp).storable (spells_of_ofSource hp herr).isStatement).exists_data
      rw [outcome_emitTree hfile hp herr hencode htarget]
      refine ⟨rfl, fun emitted treeArgs hemitted hasks => ?_, p, outcomes, s, hp, herr, hexec, rfl⟩
      have hfound := Disk.locate_put htarget (Json.writeIndented data).toUTF8
      rw [← hemitted] at hfound
      have hran := outcome_runTree ⟨target, _, hfound, hbytes⟩ hread hdecode htree (by omega)
      rw [hasks.runCommand_eq, Job.quiet, hran, hfailed]
      exact ⟨rfl, rfl, rfl⟩
  · obtain ⟨o, hstatus, hdisk, hran, hemitted, hprinted⟩ := outcome_of_errors hfile hp herr
    rw [hran, hemitted, hprinted]
    exact ⟨fun _ => ⟨rfl, rfl, hdisk⟩, fun hne => absurd hstatus hne⟩

theorem scan_semicolon :
    Scan.ofSource ";" = ⟨[⟨.semicolon, ";", none, 1⟩, Token.eof 1], [], 1⟩ := by
  have hsegments : segments ";".toList = [.token .semicolon [';'] none] :=
    segments_eq_cons rfl segments.eq_1
  unfold Scan.ofSource
  rw [hsegments]
  rfl

theorem withinLimits_printing {p : Program} (hp : Program.ofSource "print b;" = .ok p) :
    p.WithinLimits := by
  have htree : p.tree = .list [.printStmt (.reference (.token ⟨.identifier, "b", none, 1⟩))] := by
    unfold Program.ofSource at hp
    rw [scan_printing] at hp
    cases hp
    rfl
  have hdepth : p.tree.depth ≤ 4 := by
    rw [htree]
    refine Tree.depth_le_succ_iff.2 (List.forall_mem_singleton.2 ?_)
    refine Tree.depth_le_succ_iff.2 (List.forall_mem_singleton.2 ?_)
    refine Tree.depth_le_succ_iff.2 (List.forall_mem_singleton.2 ?_)
    exact Tree.depth_le_succ_iff.2 (by simp [Tree.parts, Tree.fields])
  have hone : (Nat.toDigits 10 1).length ≤ Json.maxIntegerDigits := by decide
  constructor
  · exact (Nat.mul_le_mul_left 2 hdepth).trans (by decide)
  · rw [htree]
    simpa [Tree.tokens, Tree.parts, Tree.fields] using hone

/-- Two programs: one that prints a variable that there is not, and one that is no program. -/
def twoPrograms : Disk :=
  Disk.ofFiles [] [(["a.lox"], "print b;".toUTF8), (["c.lox"], ";".toUTF8)]

theorem twoPrograms_holds :
    twoPrograms.Holds "a.lox" "print b;" ∧ twoPrograms.Holds "c.lox" ";" :=
  ⟨⟨_, _, rfl, Text.ofBytes?_toUTF8 (by decide)⟩, ⟨_, _, rfl, Text.ofBytes?_toUTF8 (by decide)⟩⟩

theorem runCommand_twoPrograms :
    (runCommand ["a.lox"] twoPrograms "").status = .ok 70 ∧
      (runCommand ["c.lox"] twoPrograms "").status = .ok 65 := by
  have hfails : ∃ s, Run.source "print b;" (Session.start 0) = .ok () s ∧ s.level ≤ 0 ∧
      s.hadError = false ∧ s.hadRuntimeError = true := by
    unfold Run.source
    rw [scan_printing]
    exact ⟨_, rfl, Int.le_refl 0, rfl, rfl⟩
  have hwrong : ∃ p, Program.ofSource ";" = .ok p ∧ p.errors ≠ [] := by
    unfold Program.ofSource
    rw [scan_semicolon]
    exact ⟨_, rfl, List.cons_ne_nil _ _⟩
  obtain ⟨s, hs, hlevel, herror, hfailed⟩ := hfails
  obtain ⟨p, hp, herr⟩ := hwrong
  obtain ⟨hfirst, hsecond⟩ := twoPrograms_holds
  have hasks : Asks ["a.lox"] (.runProgram "a.lox") := ⟨_, rfl, rfl, rfl⟩
  have hasks' : Asks ["c.lox"] (.runProgram "c.lox") := ⟨_, rfl, rfl, rfl⟩
  constructor
  · rw [hasks.runCommand_eq, Job.quiet, outcome_runProgram hfirst hs hlevel, herror, hfailed]
    rfl
  · rw [hasks'.runCommand_eq, Job.quiet, outcome_runProgram_of_errors hsecond hp herr]

/-- The first program fails, and its tree fails in the same way; the second has no tree. -/
theorem runCommand_emitted_twoPrograms :
    (runCommand ["--emit-ast", "a.lox"] twoPrograms "").status = .ok 0 ∧
      (runCommand ["--ast", "a.lox.ast.json"]
        (runCommand ["--emit-ast", "a.lox"] twoPrograms "").console.disk "").status = .ok 70 ∧
      (runCommand ["--emit-ast", "c.lox"] twoPrograms "").status = .ok 65 ∧
      (runCommand ["--emit-ast", "c.lox"] twoPrograms "").console.disk = twoPrograms := by
  obtain ⟨hfirst, hsecond⟩ := twoPrograms_holds
  obtain ⟨hran, hstopped⟩ := runCommand_twoPrograms
  have hran65 : (runCommand ["a.lox"] twoPrograms "").status ≠ .ok 65 := by
    rw [hran]
    nofun
  have hasks : Asks ["--ast", "a.lox.ast.json"] (.runTree "a.lox.ast.json") := ⟨_, rfl, rfl, rfl⟩
  obtain ⟨hemitted, hsame, -⟩ := (runCommand_emitted hfirst
    (⟨_, rfl, rfl, rfl⟩ : Asks ["a.lox"] (.runProgram "a.lox"))
    (⟨_, rfl, rfl, rfl⟩ : Asks ["--emit-ast", "a.lox"] (.emitTree "a.lox"))
    (⟨_, rfl, rfl, rfl⟩ : Asks ["--print-ast", "a.lox"] (.printTree "a.lox")) "").2 hran65
    (fun p hp => withinLimits_printing hp) (by decide)
  obtain ⟨hnone, -, hdisk⟩ := (runCommand_emitted hsecond
    (⟨_, rfl, rfl, rfl⟩ : Asks ["c.lox"] (.runProgram "c.lox"))
    (⟨_, rfl, rfl, rfl⟩ : Asks ["--emit-ast", "c.lox"] (.emitTree "c.lox"))
    (⟨_, rfl, rfl, rfl⟩ : Asks ["--print-ast", "c.lox"] (.printTree "c.lox")) "").1 hstopped
  have htree := hsame "a.lox.ast.json" _ (by decide) hasks
  exact ⟨hemitted, htree.status.trans hran, by rw [hnone, hstopped], by rw [hnone, hdisk]⟩

end LoxTree
