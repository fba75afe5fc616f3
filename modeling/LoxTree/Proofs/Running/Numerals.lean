import LoxTree.Proofs.Number.Positional
import LoxTree.Proofs.Parsing.Recognition
import LoxTree.Proofs.Scanning.Partition
import LoxTree.Session.Evaluate
import LoxTree.Value.Numeric

/-!
# Printed numbers are expressions

What a program prints for a finite double may stand in a program: it is one number, behind a minus
if the sign of the double is set, and its value is the double, with the sign of zero.

* `segments_signed` and `Scan.ofSource_signed`: digits with or without a minus are scanned as such.
* `Expr.ofSource_signed`: they are parsed to a literal, or to its negation.
* `evaluate_signedTree`: which evaluates to the number with that sign.
* `numberText_reads_back`: so the text of a number is of the printed form, denotes the same shortest
  decimal as the number's text in other data, and evaluates to the number.
-/

namespace LoxTree

open Number

/-! ### Scanning -/

theorem Longest.of_end {P : List Char → Prop} {lexeme : List Char} (h : P lexeme) :
    Longest P lexeme [] := by
  refine ⟨h, fun more rest hafter _ => ?_⟩
  exact (List.append_eq_nil_iff.1 hafter.symm).1

namespace Segment

/-- A numeral without a power of ten is a number. -/
theorem isNumber_text {w : Written} (h : w.Proper) (hpower : w.power = none) :
    IsNumber w.text := by
  have htext : w.text = w.whole ++ w.fractionText := by
    rw [Written.text, Written.powerText, hpower, List.append_nil]
  rw [htext, Written.fractionText]
  by_cases hpart : w.part = []
  · rw [if_pos hpart, List.append_nil]
    exact .whole h.whole_ne h.whole
  · rw [if_neg hpart]
    exact .point h.whole_ne h.whole hpart h.part

/-- A minus is an operator whatever follows it. -/
theorem fits_minus (after : List Char) : (token .minus ['-'] none).Fits after := by
  have hlongest : Longest IsOperator Kind.minus.spelling.toList after :=
    longest_operator_of_only (by decide) (by decide) after
  exact .operator (by decide) (by decide) hlongest (by simp)

end Segment

/-- The segments of digits, behind a minus or not. -/
theorem segments_signed {digits : List Char} (h : Segment.IsNumber digits) (negative : Bool) :
    segments ((if negative then ['-'] else []) ++ digits) =
      (if negative then [.token .minus ['-'] none] else []) ++
        [.token .number digits (some digits)] := by
  have hdigits : Partition (digits ++ []) [.token .number digits (some digits)] :=
    .cons (.number (.of_end h)) .nil
  rw [List.append_nil] at hdigits
  apply partition_iff.1
  cases negative with
  | true => exact .cons (Segment.fits_minus digits) hdigits
  | false => exact hdigits

/-- The tokens of a number, behind a minus or not. -/
def signedTokens (negative : Bool) (digits : String) : List Token :=
  (if negative then [⟨.minus, "-", none, 1⟩] else []) ++ [⟨.number, digits, some digits, 1⟩]

/-- The scan of digits, behind a minus or not. -/
theorem Scan.ofSource_signed {digits : List Char} (h : Segment.IsNumber digits) (negative : Bool) :
    Scan.ofSource (String.ofList ((if negative then ['-'] else []) ++ digits)) =
      ⟨signedTokens negative (String.ofList digits) ++ [Token.eof 1], [], 1⟩ := by
  have hnone : (Segment.token .number digits (some digits)).newlines = 0 := rfl
  have hlast : Scan.ofSegments 1 [.token .number digits (some digits)] =
      ⟨[⟨.number, String.ofList digits, some (String.ofList digits), 1⟩, Token.eof 1], [], 1⟩ := by
    rw [Scan.ofSegments, hnone]
    rfl
  have hminus : (Segment.token .minus ['-'] none).newlines = 0 := by decide
  unfold Scan.ofSource
  rw [String.toList_ofList, segments_signed h]
  cases negative with
  | true =>
    show Scan.ofSegments 1 (.token .minus ['-'] none :: [.token .number digits (some digits)]) = _
    rw [Scan.ofSegments, hminus, hlast]
    rfl
  | false => exact hlast

/-! ### Parsing -/

/-- A literal, or its negation. -/
def signedTree (negative : Bool) (x : Float) : Tree :=
  if negative then .unary (.token ⟨.minus, "-", none, 1⟩) (.literal (.number x))
  else .literal (.number x)

open Grammar Parse in
theorem derives_signed {digits : String} {x : Float} (h : readNumeral? digits = some x)
    (negative : Bool) :
    Derives .expression (signedTokens negative digits) (signedTree negative x) := by
  have hvalue : numberValue ⟨.number, digits, some digits, 1⟩ = .ok (.number x) := by
    show Value.ofNumeral digits = _
    rw [Value.ofNumeral, h]
  have hprimary : Derives .primary [⟨.number, digits, some digits, 1⟩] (.literal (.number x)) :=
    .literal (.number rfl hvalue)
  cases negative with
  | true =>
    have hunary : Derives .unary (signedTokens true digits) (signedTree true x) :=
      .unary (by simp) (.primary hprimary)
    exact (Within.bounds .unary).2 _ _ hunary
  | false => exact (Within.bounds .primary).2 _ _ hprimary

/-- Digits that are a number are an expression, behind a minus or not. -/
theorem Expr.ofSource_signed {digits : List Char} (h : Segment.IsNumber digits) {x : Float}
    (hx : readNumeral? (String.ofList digits) = some x) (negative : Bool) :
    ∃ e, Expr.ofSource (String.ofList ((if negative then ['-'] else []) ++ digits)) = .ok e ∧
      e.toTree = signedTree negative x := by
  have htokens : Scan.tokenize (String.ofList ((if negative then ['-'] else []) ++ digits)) =
      .ok (signedTokens negative (String.ofList digits) ++ [Token.eof 1]) := by
    rw [Scan.tokenize, Scan.ofSource_signed h]
  have hkinds : ∀ t ∈ signedTokens negative (String.ofList digits), t.kind ≠ .eof := by
    cases negative <;> simp [signedTokens]
  have hrest : (ParseState.ofTokens
      (signedTokens negative (String.ofList digits) ++ [Token.eof 1])).rest =
        signedTokens negative (String.ofList digits) := by
    rw [ParseState.ofTokens_append hkinds rfl]
  have hd := derives_signed hx negative
  rw [← hrest] at hd
  -- such an expression is not nested deeply
  have hnesting : (signedTree negative x).nesting ≤ 1 := by
    cases negative <;> simp [signedTree, Tree.nesting]
  have hroom : ¬ nestingRoom < Rule.expression.need (signedTree negative x) := by
    rw [Rule.need_expression, nestingRoom]
    omega
  unfold Expr.ofSource
  rw [htokens]
  exact (Standalone.result_of_derives hd).resolve_right fun hdeep => hroom hdeep.1

/-! ### Evaluating -/

/-- A literal or its negation evaluates to the number with that sign, without any effect. -/
theorem evaluate_signedTree (scope room : Nat) (negative : Bool) (x : Float) (s : Session) :
    Run.evaluate scope (room + 2) (signedTree negative x) s =
      .ok (.number (if negative then -x else x)) s := by
  cases negative <;> rfl

/-- The number of a sign and a magnitude. -/
theorem signed_ofMagnitude {m : Nat} (h : m < infinityBits) (negative : Bool) :
    (if negative then -ofMagnitude false m else ofMagnitude false m) = ofMagnitude negative m := by
  cases negative with
  | true => exact neg_ofMagnitude h
  | false => rfl

/-! ### Reading back -/

/-- The text of a finite number has the form of printed numbers, which has no power of ten. It
denotes the same shortest decimal as the text by which the number is shown in other data, which is
read back as the number, and it has the sign of the number, also of zero. It is scanned without
complaints as one number, behind a minus exactly if that sign is set. As an expression it has the
number for its value. -/
theorem numberText_reads_back {x : Float} (hx : magnitude x < infinityBits) :
    ∃ text, (Value.number x).numberText = .ok text ∧
      printedForm.rmatch text.toList = true ∧
      readNumeral? (Value.number x).inspect = some x ∧
      (∃ decimal : Decimal, decimal.IsShortest (magnitude x) ∧
        denoted? text = some (isNegative x, decimal.value) ∧
        denoted? (Value.number x).inspect = some (isNegative x, decimal.value)) ∧
      (∃ digits, Scan.ofSource text =
        ⟨(if isNegative x then [⟨.minus, "-", none, 1⟩] else []) ++
          [⟨.number, digits, some digits, 1⟩, Token.eof 1], [], 1⟩) ∧
      ∃ e, Expr.ofSource text = .ok e ∧
        ∀ scope s, Run.evaluate scope nestingRoom e.toTree s = .ok (.number x) s := by
  have hform := printed_rmatch hx
  have hread := readNumeral?_write Value.inspectedNumber 1 rfl rfl hx
  have hprinted := denoted?_write Value.printedNumber 0 rfl rfl hx
  have hinspected := denoted?_write Value.inspectedNumber 1 rfl rfl hx
  obtain ⟨w, hw, hpower, -, hwrite⟩ := exists_printed hx
  have hnumber := Segment.isNumber_text hw.proper hpower
  have hdigits : readNumeral? (String.ofList w.text) = some (ofMagnitude false (magnitude x)) := by
    have hunsigned := hw.proper.readNumeral?_text false
    rwa [hw.round, round_shortest hx] at hunsigned
  obtain ⟨e, he, htree⟩ := Expr.ofSource_signed hnumber hdigits (isNegative x)
  refine ⟨_, rfl, hform, hread, ⟨_, shortest_isShortest hx, hprinted, hinspected⟩,
    ⟨String.ofList w.text, ?_⟩, e, ?_, ?_⟩
  · rw [hwrite, Scan.ofSource_signed hnumber, signedTokens, List.append_assoc]
    rfl
  · rw [hwrite, he]
  · intro scope s
    rw [htree, nestingRoom, evaluate_signedTree, signed_ofMagnitude hx, ofMagnitude_magnitude]

/-- Zero with its sign set is printed with a minus, and that is an expression for it. -/
theorem numberText_reads_back_negative_zero :
    ∃ e, Expr.ofSource "-0" = .ok e ∧
      ∀ scope s, Run.evaluate scope nestingRoom e.toTree s =
        .ok (.number (ofMagnitude true 0)) s := by
  have hfinite : magnitude (ofMagnitude true 0) < infinityBits := by decide
  have hshortest : shortest (magnitude (ofMagnitude true 0)) = ⟨0, 0⟩ := shortest_zero
  have htext : (Value.number (ofMagnitude true 0)).numberText = .ok "-0" := by
    rw [Value.numberText, Layout.write_of_finite _ hfinite, hshortest]
    rfl
  obtain ⟨text, hsame, -, -, -, -, hvalue⟩ := numberText_reads_back hfinite
  cases htext.symm.trans hsame
  exact hvalue

end LoxTree
