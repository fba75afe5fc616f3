import LoxTree.Proofs.Parsing.Order
import LoxTree.Proofs.Parsing.Recognition

/-!
# The complaints about an expression

Complaints about an expression take two ways. An assignment whose target is no variable is recorded,
and parsing goes on. A missing operand or parenthesis is thrown, and the expression breaks off. An
expression that stands alone throws the first complaint that was recorded once it is read to its
end, but where it breaks off it throws what broke it off, whatever was recorded before.

* `Complains m`: what the step `m` records are invalid targets, and what it throws breaks off the
  expression at the next token. `complains_parse` says so of every rule.
* `ofTokens_throws_first_iff`: the complaint that is thrown is the first that was found exactly if
  nothing was recorded or the expression was read to its end.
* `ofTokens_throws_later`: there is an expression of which another one is thrown.
-/

namespace LoxTree

open Step Parse

/-- A complaint that breaks off an expression: an operand or a closing parenthesis is missing. -/
def Diagnostic.BreaksOff (d : Diagnostic) : Prop :=
  d.complaint = .expectExpression ∨ d.complaint = .expectClosingParen

/-- The complaints that were recorded between two states are about targets of assignments. -/
def ParseState.RecordsTargets (s s' : ParseState) : Prop :=
  ∃ new, s'.errors = s.errors ++ new ∧ ∀ d ∈ new, d.complaint = .invalidTarget

/-- A step that records complaints about targets only, and throws only such complaints as break off
an expression at the next token. -/
def Complains {α : Type} (m : Parse α) : Prop :=
  ∀ s, Ensures m s (fun _ s' => s.RecordsTargets s')
    (fun f s' => s.RecordsTargets s' ∧ ∀ d, f = .diagnostic d →
      d.BreaksOff ∧ d.token? = some (s'.rest.headD s'.ending))

/-- Every rule records complaints about targets only, and throws such as break it off. -/
theorem complains_parse (room : Nat) (r : Rule) : Complains (Rule.parse room r) := by
  have hrecords : ∀ {s s' : ParseState}, s.Later s' → s.RecordsTargets s' := by
    rintro s s' ⟨used, new, h⟩
    refine ⟨new, h.errors, fun d hd => ?_⟩
    obtain ⟨t, -, rfl⟩ := h.targets d hd
    rfl
  have horders : Orders expressionComplaints (Rule.parse room r) :=
    orders_parse (List.Subset.refl _) room r
  intro s
  refine (horders s).mono (fun _ _ hlater => hrecords hlater) ?_
  rintro f s' ⟨hlater, hnext⟩
  refine ⟨hrecords hlater, fun d hd => ?_⟩
  obtain ⟨c, hc, rfl⟩ := hnext d hd
  have hbreaks : c = .expectExpression ∨ c = .expectClosingParen := by
    simpa [expressionComplaints] using hc
  exact ⟨hbreaks, rfl⟩

/-! ### Expressions that stand alone -/

theorem Standalone.ofTokens_of_error {tokens : List Token} {f : Fault} {s' : ParseState}
    (h : standalone nestingRoom (ParseState.ofTokens tokens) = .error f s') :
    Standalone.ofTokens tokens =
      ⟨.error f, s'.errors, (ParseState.ofTokens tokens).rest.length - s'.rest.length⟩ := by
  unfold Standalone.ofTokens
  simp only [h]

/-- The next token is the one behind those that were consumed. -/
theorem getElem?_consumed {tokens rest : List Token} (h : rest <:+ tokens) (ending : Token) :
    (tokens ++ [ending])[tokens.length - rest.length]? = some (rest.headD ending) := by
  obtain ⟨used, rfl⟩ := h
  rw [List.append_assoc, List.length_append, Nat.add_sub_cancel,
    List.getElem?_append_right (Nat.le_refl _), Nat.sub_self]
  cases rest <;> rfl

/-- The complaints about an expression that is read to its end: the first of them does not break it
off. -/
theorem not_breaksOff_of_standaloneErrors {s t : ParseState} (h : s.RecordsTargets t)
    (hs : s.errors = []) {d : Diagnostic} {later : List Diagnostic}
    (hd : standaloneErrors t = d :: later) : ¬ d.BreaksOff := by
  obtain ⟨new, hnew, hall⟩ := h
  rw [hs, List.nil_append] at hnew
  have hmem : d ∈ standaloneErrors t := hd ▸ List.mem_cons_self
  have hcomplaint : d.complaint = .invalidTarget ∨ d.complaint = .expectExpressionEnd := by
    unfold standaloneErrors at hmem
    rw [hnew] at hmem
    split at hmem
    · exact .inl (hall d hmem)
    · rcases List.mem_append.1 hmem with hmem | hmem
      · exact .inl (hall d hmem)
      · rw [List.mem_singleton.1 hmem]
        exact .inr rfl
  unfold Diagnostic.BreaksOff
  rcases hcomplaint with hc | hc <;> rw [hc] <;> decide

/-- What an expression that stands alone throws, if not for want of room: the first complaint of
those recorded once it is read to its end, and else what breaks it off at the token reached, which
is recorded nowhere. -/
theorem Standalone.thrown {tokens : List Token} {ending : Token} (h : ScannerShaped tokens)
    (hend : ending.kind = .eof) {f : Fault}
    (hf : (Standalone.ofTokens (tokens ++ [ending])).result = .error f)
    (hdeep : ∀ t, f ≠ .diagnostic (.grammatical t .nestedTooDeeply)) :
    ∃ d, f = .diagnostic d ∧
      (¬ d.BreaksOff ∧ (Standalone.ofTokens (tokens ++ [ending])).errors.head? = some d ∨
        d.BreaksOff ∧ d.token? =
          (tokens ++ [ending])[(Standalone.ofTokens (tokens ++ [ending])).position]? ∧
        ∀ e ∈ (Standalone.ofTokens (tokens ++ [ending])).errors, e.complaint = .invalidTarget) := by
  have hstart := ParseState.ofTokens_append h.noEnding hend
  rw [Standalone.result_ofTokens, hstart] at hf
  have hfwd := forward_parse nestingRoom .expression { rest := tokens, ending }
  have hcomplains := complains_parse nestingRoom .expression { rest := tokens, ending }
  cases hp : Rule.parse nestingRoom .expression { rest := tokens, ending } with
  | ok e t =>
    -- read to its end: the complaint is the first of those recorded
    rw [standalone_of_ok hp] at hf
    cases hd : standaloneErrors t with
    | nil =>
      rw [hd] at hf
      cases hf
    | cons d later =>
      rw [hd] at hf
      cases hf
      have hst := standalone_of_ok hp
      rw [hd] at hst
      rw [Standalone.ofTokens_of_error (hstart ▸ hst)]
      exact ⟨d, rfl, .inl ⟨not_breaksOff_of_standaloneErrors (hcomplains.ok hp) rfl hd, rfl⟩⟩
  | error g t =>
    obtain ⟨hext, hrecoverable⟩ := hfwd.error hp
    obtain ⟨⟨new, hnew, hall⟩, hthrown⟩ := hcomplains.error hp
    rcases hrecoverable h.readable with rfl | ⟨d, rfl⟩
    · -- want of room is ruled out
      rw [standalone_of_tooDeep hp] at hf
      cases hf
      exact absurd rfl (hdeep _)
    · have hst := standalone_of_error hp (by simp)
      rw [hst] at hf
      cases hf
      obtain ⟨hbreaks, htoken⟩ := hthrown d rfl
      have hnew : t.errors = new := hnew
      rw [Standalone.ofTokens_of_error (hstart ▸ hst), hstart]
      refine ⟨d, rfl, .inr ⟨hbreaks, ?_, fun e he => hall e (hnew ▸ he : e ∈ new)⟩⟩
      rw [getElem?_consumed hext.rest ending, htoken, hext.ending]

/-- Tokens as the scanner makes them that are no expression, for other reasons than nesting: the
complaint that is thrown is the first that was found exactly if nothing was recorded or the
expression was read to its end. Otherwise it broke off at the token reached, behind invalid targets
that were found before. -/
theorem ofTokens_throws_first_iff {tokens : List Token} {ending : Token} (h : ScannerShaped tokens)
    (hend : ending.kind = .eof) {f : Fault}
    (hf : (Standalone.ofTokens (tokens ++ [ending])).result = .error f)
    (hdeep : ∀ t, f ≠ .diagnostic (.grammatical t .nestedTooDeeply)) :
    ∃ d, f = .diagnostic d ∧
      ((∀ first ∈ (Standalone.ofTokens (tokens ++ [ending])).errors.head?, d = first) ↔
        (Standalone.ofTokens (tokens ++ [ending])).errors = [] ∨ ¬ d.BreaksOff) ∧
      (¬ d.BreaksOff → (Standalone.ofTokens (tokens ++ [ending])).errors.head? = some d) ∧
      (d.BreaksOff →
        d.token? = (tokens ++ [ending])[(Standalone.ofTokens (tokens ++ [ending])).position]? ∧
        ∀ e ∈ (Standalone.ofTokens (tokens ++ [ending])).errors, e.complaint = .invalidTarget) := by
  obtain ⟨d, rfl, hthrown⟩ := Standalone.thrown h hend hf hdeep
  refine ⟨d, rfl, ?_, fun hread => ?_, fun hbreaks => ?_⟩
  · rcases hthrown with ⟨hread, hhead⟩ | ⟨hbreaks, -, hall⟩
    · rw [hhead]
      simp [hread]
    · cases herrors : (Standalone.ofTokens (tokens ++ [ending])).errors with
      | nil => simp
      | cons first later =>
        -- the first one is about a target, and that breaks nothing off
        have hfirst := hall first (herrors ▸ List.mem_cons_self)
        have hne : d ≠ first := by
          rintro rfl
          unfold Diagnostic.BreaksOff at hbreaks
          rw [hfirst] at hbreaks
          revert hbreaks
          decide
        simp [hne, hbreaks]
  · exact (hthrown.resolve_right fun hthrown => hread hthrown.1).2
  · exact (hthrown.resolve_left fun hthrown => hthrown.1 hbreaks).2

/-- The tokens of `nil = nil nil`, with an invalid target and a token too many. -/
def overlongTokens : List Token :=
  [⟨.kwNil, "nil", none, 1⟩, ⟨.equal, "=", none, 1⟩, ⟨.kwNil, "nil", none, 1⟩,
    ⟨.kwNil, "nil", none, 1⟩]

/-- Read to its end, the expression throws the first of its two complaints. -/
theorem ofTokens_throws_first_iff_overlongTokens :
    (Standalone.ofTokens (overlongTokens ++ [Token.eof 1])).result =
        .error (.diagnostic (.grammatical ⟨.equal, "=", none, 1⟩ .invalidTarget)) ∧
      (Standalone.ofTokens (overlongTokens ++ [Token.eof 1])).errors.length = 2 ∧
      ∀ first ∈ (Standalone.ofTokens (overlongTokens ++ [Token.eof 1])).errors.head?,
        Diagnostic.grammatical ⟨.equal, "=", none, 1⟩ .invalidTarget = first := by
  have hresult : (Standalone.ofTokens (overlongTokens ++ [Token.eof 1])).result =
      .error (.diagnostic (.grammatical ⟨.equal, "=", none, 1⟩ .invalidTarget)) := rfl
  obtain ⟨d, hd, hiff, -⟩ := ofTokens_throws_first_iff (ScannerShaped.of_noNumber (by decide))
    (rfl : (Token.eof 1).kind = .eof) hresult (fun t ht => by cases ht)
  cases hd
  refine ⟨hresult, rfl, hiff.2 (.inr ?_)⟩
  unfold Diagnostic.BreaksOff
  decide

/-- The tokens of `(nil = nil`, with an invalid target and no closing parenthesis. -/
def unclosedTokens : List Token :=
  [⟨.leftParen, "(", none, 1⟩, ⟨.kwNil, "nil", none, 1⟩, ⟨.equal, "=", none, 1⟩,
    ⟨.kwNil, "nil", none, 1⟩]

/-- The target is the first complaint that is found and it is recorded, but the missing parenthesis
is thrown. -/
theorem ofTokens_throws_later :
    (Standalone.ofTokens (unclosedTokens ++ [Token.eof 1])).errors =
        [.grammatical ⟨.equal, "=", none, 1⟩ .invalidTarget] ∧
      (Standalone.ofTokens (unclosedTokens ++ [Token.eof 1])).result =
        .error (.diagnostic (.grammatical (Token.eof 1) .expectClosingParen)) :=
  ⟨rfl, rfl⟩

end LoxTree
