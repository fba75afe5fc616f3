import LoxTree.Proofs.Running.Observation
import LoxTree.Shell

/-!
# The shell loses no input

Lines are entered one after another. Commands leave everything as it is, an empty line does nothing
when no lines are kept back, and every other line is kept back or runs all that was kept back. So
what was run and what is still kept back is together what was entered, each line once and in order.

* `Entry.IsBare`, `Shell.Contributes`: commands, and lines that are part of what is run.
* `step_cases`: what a line can do to the shell.
* `Shell.Consistent`: what holds between any two lines.
* `join_submissions`: what was run, and what is kept back, is what was entered.
* `session_enterAll`: the session is the one after the texts that were run.
* `enterAll_accounts`: all of this, from the start of the shell.
-/

namespace LoxTree

/-! ### Commands -/

namespace Text

/-- A stripped text does not end with a blank. -/
theorem not_isBlank_getLast?_strip {s : String} {c : Char} (h : c ∈ (strip s).toList.getLast?) :
    isBlank c = false := by
  unfold strip trimBoth dropEndWhile at h
  rw [String.toList_ofList, List.getLast?_reverse] at h
  have hhead := List.head?_dropWhile_not isBlank (s.toList.dropWhile isBlank).reverse
  rw [Option.mem_def.1 h] at hhead
  simpa using hhead

/-- A stripped text has no blanks behind a place from which on all are blanks. -/
theorem eq_nil_of_all_isBlank {s : String} {front blanks : List Char}
    (h : (strip s).toList = front ++ blanks) (hblanks : ∀ c ∈ blanks, isBlank c = true) :
    blanks = [] := by
  rcases List.eq_nil_or_concat blanks with rfl | ⟨init, c, rfl⟩
  · rfl
  · have hlast : c ∈ (strip s).toList.getLast? := by simp [h]
    have hnot := not_isBlank_getLast?_strip hlast
    have hc := hblanks c (by simp)
    rw [hnot] at hc
    cases hc

end Text

namespace Entry

/-- A line with nothing on it but the word of a command, or the question mark for `help`. -/
def IsBare (line : String) : Prop :=
  Text.strip line ∈ ["help", "?", "exit", "EOF"]

instance (line : String) : Decidable (IsBare line) :=
  inferInstanceAs (Decidable (_ ∈ _))

theorem ofLine_of_isBare {line : String} (h : IsBare line) : ∃ c, ofLine line = .command c := by
  unfold IsBare at h
  simp only [List.mem_cons, List.not_mem_nil, or_false] at h
  unfold ofLine prepare
  rcases h with h | h | h | h <;> rw [h]
  · exact ⟨.help, rfl⟩
  · exact ⟨.help, rfl⟩
  · exact ⟨.exit, rfl⟩
  · exact ⟨.endOfInput, rfl⟩

theorem mem_of_command? {word : String} {c : Command} (h : command? word = some c) :
    word ∈ ["help", "exit", "EOF"] := by
  unfold command? at h
  split at h <;> simp_all

/-- A word with blanks behind it on a line that is not for `help` is alone on the line. -/
theorem strip_of_word {line : String} {word : List Char} {blanks : List Char}
    (h : (Text.strip line).toList = word ++ blanks)
    (hblanks : ∀ c ∈ blanks, Text.isBlank c = true) : Text.strip line = String.ofList word := by
  have hnil := Text.eq_nil_of_all_isBlank h hblanks
  rw [hnil, List.append_nil] at h
  rw [← h, String.ofList_toList]

/-- A line with the word of a command and blanks is a bare one. -/
theorem isBare_of_command {line : String} {c : Command}
    (hword : command? (String.ofList ((prepare line).toList.takeWhile isCommandChar)) = some c)
    (hblanks : ∀ x ∈ (prepare line).toList.dropWhile isCommandChar, Text.isBlank x = true) :
    IsBare line := by
  unfold IsBare
  by_cases hmark : ∃ rest, (Text.strip line).toList = '?' :: rest
  · -- behind a question mark there is nothing but blanks, so nothing
    obtain ⟨rest, hrest⟩ := hmark
    have hprepare : prepare line = "help " ++ String.ofList rest := by
      unfold prepare
      dsimp only
      rw [hrest]
      rfl
    have hdrop : (prepare line).toList.dropWhile isCommandChar = ' ' :: rest := by
      have hlist : (String.ofList rest).toList = rest := String.toList_ofList
      rw [hprepare, String.toList_append, hlist]
      rfl
    rw [hdrop] at hblanks
    have hmarked : (Text.strip line).toList = ['?'] ++ rest := hrest
    rw [strip_of_word hmarked fun x hx => hblanks x (List.mem_cons_of_mem _ hx)]
    decide
  · have hprepare : prepare line = Text.strip line := by
      unfold prepare
      dsimp only
      split
      · next rest hrest => exact absurd ⟨rest, hrest⟩ hmark
      · rfl
    rw [hprepare] at hword hblanks
    rw [strip_of_word List.takeWhile_append_dropWhile.symm hblanks]
    have hsubset : ["help", "exit", "EOF"] ⊆ ["help", "?", "exit", "EOF"] := by decide
    exact hsubset (mem_of_command? hword)

/-- A line that is no command is empty or source text. -/
theorem ofLine_of_not_isBare {line : String} (h : ¬ IsBare line) :
    ofLine line = if prepare line = "" then .empty else .source (prepare line) := by
  unfold ofLine
  dsimp only
  simp only [String.isEmpty_iff]
  split
  · rfl
  · split
    · next c hc =>
      rw [if_neg]
      intro hall
      exact h (isBare_of_command hc (List.all_eq_true.1 hall))
    · rfl

end Entry

/-! ### One line -/

open Entry

namespace Shell

/-- Whether a line is part of what is run: it is no command, and it is not an empty line that is
entered when no lines are kept back. -/
def Contributes (s : Shell) (line : String) : Prop :=
  ¬ IsBare line ∧ ¬ (prepare line = "" ∧ s.pending = "")

instance (s : Shell) (line : String) : Decidable (s.Contributes line) :=
  inferInstanceAs (Decidable (_ ∧ _))

/-- Whether a line asks for another one. -/
def Continues (line : String) : Prop :=
  (prepare line).toList.getLast? = some ';'

instance (line : String) : Decidable (Continues line) :=
  inferInstanceAs (Decidable (_ = _))

/-- What can happen to the shell when a line is entered. -/
inductive StepCases (s : Shell) (line : String) : Shell → Prop
  /-- A command writes to the output, if anything. -/
  | command (output : String) : IsBare line →
    StepCases s line { s with session := { s.session with output } }
  /-- An empty line does nothing when no lines are kept back. -/
  | idle : ¬ IsBare line → prepare line = "" → s.pending = "" → StepCases s line s
  /-- A line with a semicolon at its end is kept back. -/
  | keep : s.Contributes line → Continues line →
    StepCases s line
      { s with pending := s.pending ++ prepare line ++ "\n", prompt := secondaryPrompt }
  /-- Any other line runs all that was kept back. -/
  | run : s.Contributes line → ¬ Continues line →
    StepCases s line
      { session := s.session.run (s.pending ++ prepare line ++ "\n"), pending := "",
        prompt := primaryPrompt }

theorem enter_cases {s : Shell} {line : String} (h : s.Contributes line) :
    StepCases s line (s.enter (prepare line)) := by
  unfold enter
  dsimp only
  split
  · next hlast => exact .keep h hlast
  · next hlast => exact .run h hlast

theorem step_cases (s : Shell) (line : String) : StepCases s line (s.step line).1 := by
  unfold step
  by_cases hbare : IsBare line
  · obtain ⟨c, hc⟩ := ofLine_of_isBare hbare
    rw [hc]
    cases c with
    | help => exact .command _ hbare
    | exit => exact .command s.session.output hbare
    | endOfInput => exact .command _ hbare
  · rw [ofLine_of_not_isBare hbare]
    by_cases hempty : prepare line = ""
    · rw [if_pos hempty]
      dsimp only
      split
      · next hpending => exact .idle hbare hempty (String.isEmpty_iff.1 hpending)
      · next hpending =>
        have hcontributes : s.Contributes line :=
          ⟨hbare, fun h => hpending (String.isEmpty_iff.2 h.2)⟩
        have hcases := enter_cases hcontributes
        rwa [hempty] at hcases
    · rw [if_neg hempty]
      dsimp only
      exact enter_cases ⟨hbare, fun h => hempty h.1⟩

/-- What holds between any two lines: lines that are kept back end with a semicolon, and the prompt
tells whether there are any. -/
structure Consistent (s : Shell) : Prop where
  pending : s.pending = "" ∨ ∃ kept, s.pending = kept ++ ";\n"
  prompt : s.prompt = secondaryPrompt ↔ s.pending ≠ ""

theorem consistent_of_empty (session : Session) :
    Consistent { session, pending := "", prompt := primaryPrompt } := by
  have hne : primaryPrompt ≠ secondaryPrompt := by decide
  exact ⟨.inl rfl, iff_of_false hne fun h => h rfl⟩

theorem Consistent.step {s : Shell} (h : s.Consistent) (line : String) :
    (s.step line).1.Consistent := by
  have hcases := s.step_cases line
  generalize (s.step line).1 = s' at hcases ⊢
  cases hcases with
  | command => exact ⟨h.pending, h.prompt⟩
  | idle => exact h
  | keep _ hlast =>
    obtain ⟨front, hfront⟩ := List.getLast?_eq_some_iff.1 hlast
    have hkept : s.pending ++ prepare line ++ "\n" = s.pending ++ String.ofList front ++ ";\n" := by
      rw [← String.toList_inj]
      simp [hfront]
    refine ⟨.inr ⟨s.pending ++ String.ofList front, hkept⟩, iff_of_true rfl fun hnil => ?_⟩
    simpa using congrArg String.toList hnil
  | run => exact consistent_of_empty _

/-! ### What is run and what is kept back -/

/-- What a line adds to what is run, if anything. -/
def contribution? (s : Shell) (line : String) : Option String :=
  if s.Contributes line then some (prepare line ++ "\n") else none

/-- The text that is run when a line is entered, if any. -/
def submission? (s : Shell) (line : String) : Option String :=
  if s.Contributes line ∧ ¬ Continues line then some (s.pending ++ prepare line ++ "\n") else none

/-- The shell after lines have been entered, whether or not it was asked to stop. -/
def enterAll (s : Shell) : List String → Shell
  | [] => s
  | line :: rest => (s.step line).1.enterAll rest

/-- What lines add to what is run, in turn. -/
def contributions (s : Shell) : List String → List String
  | [] => []
  | line :: rest => (s.contribution? line).toList ++ (s.step line).1.contributions rest

/-- The texts that are run when lines are entered, in turn. -/
def submissions (s : Shell) : List String → List String
  | [] => []
  | line :: rest => (s.submission? line).toList ++ (s.step line).1.submissions rest

theorem Consistent.enterAll {s : Shell} (h : s.Consistent) (lines : List String) :
    (s.enterAll lines).Consistent := by
  induction lines generalizing s with
  | nil => exact h
  | cons line rest ih =>
    unfold Shell.enterAll
    exact ih (h.step line)

/-- A line is added to what is kept back, and what is run is taken from it. -/
theorem join_submission (s : Shell) (line : String) :
    String.join (s.submission? line).toList ++ (s.step line).1.pending =
      s.pending ++ String.join (s.contribution? line).toList := by
  have hcases := s.step_cases line
  generalize (s.step line).1 = s' at hcases ⊢
  unfold submission? contribution?
  cases hcases with
  | command _ hbare =>
    rw [if_neg fun h => h.1.1 hbare, if_neg fun h => h.1 hbare]
    exact String.empty_append.trans String.append_empty.symm
  | idle _ hempty hpending =>
    rw [if_neg fun h => h.1.2 ⟨hempty, hpending⟩, if_neg fun h => h.2 ⟨hempty, hpending⟩]
    exact String.empty_append.trans String.append_empty.symm
  | keep h hlast =>
    rw [if_neg fun h => h.2 hlast, if_pos h]
    simp [String.append_assoc]
  | run h hlast =>
    rw [if_pos ⟨h, hlast⟩, if_pos h]
    simp [String.append_assoc]

/-- So are lines in turn. -/
theorem join_submissions (s : Shell) (lines : List String) :
    String.join (s.submissions lines) ++ (s.enterAll lines).pending =
      s.pending ++ String.join (s.contributions lines) := by
  induction lines generalizing s with
  | nil => exact String.empty_append.trans String.append_empty.symm
  | cons line rest ih =>
    unfold submissions contributions enterAll
    rw [String.join_append, String.join_append, String.append_assoc, ih, ← String.append_assoc,
      join_submission, String.append_assoc]

end Shell

/-! ### The session -/

/-- Sessions that differ in what was written to the output at most. -/
def Session.SameButOutput (s s' : Session) : Prop :=
  ∃ output, s' = { s with output }

theorem Session.SameButOutput.trans {s t u : Session} (h : s.SameButOutput t)
    (h' : t.SameButOutput u) : s.SameButOutput u := by
  obtain ⟨_, rfl⟩ := h
  obtain ⟨output, rfl⟩ := h'
  exact ⟨output, rfl⟩

/-- A running program does not see what was written to the output. -/
theorem unseen_sameButOutput : Unseen Session.SameButOutput where
  scopes := by
    rintro s _ ⟨output, rfl⟩
    rfl
  rescope := by
    rintro s _ ⟨output, rfl⟩ scopes
    exact ⟨output, rfl⟩
  say := by
    rintro s _ ⟨output, rfl⟩ line
    exact ⟨output ++ line ++ "\n", rfl⟩
  note := by
    rintro s _ ⟨output, rfl⟩ level line
    refine ⟨output, ?_⟩
    dsimp only
    unfold Session.note
    split
    · split
      · split <;> rfl
      · rfl
    · rfl
  begin := by
    rintro s _ ⟨output, rfl⟩ errors
    exact ⟨output, rfl⟩
  record := by
    rintro s _ ⟨output, rfl⟩ errors
    exact ⟨output, rfl⟩

theorem Session.SameButOutput.run {s s' : Session} (h : s.SameButOutput s') (text : String) :
    (s.run text).SameButOutput (s'.run text) := by
  have hblind : Blind Session.SameButOutput (Run.source text) := by
    refine unseen_sameButOutput.blind_source fun _ _ _ t _ => ?_
    refine unseen_sameButOutput.blind_noteStatement (.inl ?_)
    rintro s _ ⟨output, rfl⟩
    rfl
  unfold Session.run
  cases hs : Run.source text s with
  | ok _ t =>
    obtain ⟨_, t', hs', -, ht⟩ := hblind.ok h hs
    rw [hs']
    exact ht
  | error _ t =>
    obtain ⟨_, t', hs', -, ht⟩ := hblind.error h hs
    rw [hs']
    exact ht

namespace Shell

/-- What a line does to the session: it runs a text in it, or it writes to the output at most. -/
theorem session_step (s : Shell) (line : String) :
    match s.submission? line with
    | some text => (s.step line).1.session = s.session.run text
    | none => s.session.SameButOutput (s.step line).1.session := by
  have hcases := s.step_cases line
  generalize (s.step line).1 = s' at hcases ⊢
  unfold submission?
  cases hcases with
  | command output hbare =>
    rw [if_neg fun h => h.1.1 hbare]
    exact ⟨output, rfl⟩
  | idle _ hempty hpending =>
    rw [if_neg fun h => h.1.2 ⟨hempty, hpending⟩]
    exact ⟨s.session.output, rfl⟩
  | keep _ hlast =>
    rw [if_neg fun h => h.2 hlast]
    exact ⟨s.session.output, rfl⟩
  | run h hlast => rw [if_pos ⟨h, hlast⟩]

/-- The session after lines is the one after the texts that were run, up to what the shell itself
wrote. -/
theorem session_enterAll (s : Shell) (lines : List String) :
    ((s.submissions lines).foldl Session.run s.session).SameButOutput
      (s.enterAll lines).session := by
  induction lines generalizing s with
  | nil => exact ⟨s.session.output, rfl⟩
  | cons line rest ih =>
    have hline : ((s.submission? line).toList.foldl Session.run s.session).SameButOutput
        (s.step line).1.session := by
      have hstep := s.session_step line
      cases hsub : s.submission? line with
      | none =>
        rw [hsub] at hstep
        exact hstep
      | some text =>
        rw [hsub] at hstep
        rw [hstep]
        exact ⟨_, rfl⟩
    unfold submissions enterAll
    rw [List.foldl_append]
    exact (List.foldl_rel hline fun text _ _ _ h => h.run text).trans (ih (s.step line).1)

/-- From the start of the shell and after any lines, whether commands, empty or not: the lines kept
back end with a semicolon, and the prompt tells whether there are any; a command changes the output
at most; the texts that were run and the lines kept back are together the lines that were entered,
less the commands and the empty lines at which nothing was kept back; and the session is the one
after these texts. -/
theorem enterAll_accounts (start : Session) (lines : List String) :
    let first : Shell := { session := start }
    let shell := first.enterAll lines
    shell.Consistent ∧
    (∀ line, IsBare line →
      ∃ output, (shell.step line).1 = { shell with session := { shell.session with output } }) ∧
    (∀ line, match shell.submission? line with
      | some text => (shell.step line).1.session = shell.session.run text
      | none => shell.session.SameButOutput (shell.step line).1.session) ∧
    String.join (first.submissions lines) ++ shell.pending =
      String.join (first.contributions lines) ∧
    ((first.submissions lines).foldl Session.run start).SameButOutput shell.session := by
  intro first shell
  refine ⟨(consistent_of_empty start).enterAll lines, fun line hbare => ?_,
    shell.session_step, ?_, first.session_enterAll lines⟩
  · have hcases := shell.step_cases line
    generalize (shell.step line).1 = s' at hcases ⊢
    cases hcases with
    | command output => exact ⟨output, rfl⟩
    | idle hnot => exact absurd hbare hnot
    | keep h => exact absurd hbare h.1
    | run h => exact absurd hbare h.1
  · rw [join_submissions]
    exact String.empty_append

end Shell

end LoxTree
