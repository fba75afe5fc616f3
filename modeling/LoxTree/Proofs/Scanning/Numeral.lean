import LoxTree.Token.Segment
import LoxTree.Value.Numeric
import Mathlib.Data.List.TakeWhile

/-!
# Plain numerals

The scanner takes as a number one or more digits, or digits on both sides of a point. Reading
numerals allows much more (signs, powers of ten, underscores, digits of other scripts, blanks around
them, words for infinity), and none of it gets in the way of these plain ones.

* `isPlain_splitNumber`: what the scanner takes as a number is a plain numeral.
* `readNumeral?_of_isPlain`: every plain numeral is read.
-/

namespace LoxTree

/-! ### Runs of characters -/

section

variable {p : Char → Bool}

theorem takeWhile_append_of_stop {body after : List Char} (hbody : ∀ c ∈ body, p c = true)
    (hstop : ∀ c ∈ after.head?, p c = false) : (body ++ after).takeWhile p = body := by
  rw [List.takeWhile_append_of_pos hbody]
  cases after with
  | nil => simp
  | cons c after => simp [hstop c rfl]

theorem dropWhile_append_of_stop {body after : List Char} (hbody : ∀ c ∈ body, p c = true)
    (hstop : ∀ c ∈ after.head?, p c = false) : (body ++ after).dropWhile p = after := by
  rw [List.dropWhile_append_of_pos hbody]
  cases after with
  | nil => simp
  | cons c after => simp [hstop c rfl]

end

end LoxTree

namespace LoxTree.Number

/-! ### Digits -/

/-- The digits from zero to nine. -/
def plainDigits : List Char :=
  ['0', '1', '2', '3', '4', '5', '6', '7', '8', '9']

theorem mem_plainDigits {c : Char} (h : isDigit c = true) : c ∈ plainDigits := by
  unfold isDigit at h
  rw [Bool.and_eq_true, decide_eq_true_eq, decide_eq_true_eq, Char.le_def, Char.le_def] at h
  have hlow : 48 ≤ c.toNat := h.1
  have hhigh : c.toNat < 58 := Nat.lt_succ_of_le h.2
  have hall : ∀ n < 58, 48 ≤ n → Char.ofNat n ∈ plainDigits := by decide
  have hmem := hall c.toNat hhigh hlow
  rwa [Char.ofNat_toNat] at hmem

/-- What holds of characters tried one by one holds of each of them. -/
theorem holds_of_mem (p : Char → Prop) [DecidablePred p] {cs : List Char}
    (hall : cs.all (fun d => decide (p d)) = true) {c : Char} (h : c ∈ cs) : p c :=
  of_decide_eq_true (List.all_eq_true.1 hall c h)

/-- What holds of the ten digits, tried one by one, holds of every digit. -/
theorem holds_of_isDigit (p : Char → Prop) [DecidablePred p]
    (hall : plainDigits.all (fun d => decide (p d)) = true) {c : Char} (h : isDigit c = true) :
    p c :=
  holds_of_mem p hall (mem_plainDigits h)

/-- Nothing that reading a numeral does to characters changes a digit or a point. -/
structure Unchanged (c : Char) : Prop where
  notMargin : isMargin c = false
  plain : plainDigit c = c
  notUnderscore : c ≠ '_'

theorem unchanged_of_isDigit {c : Char} (h : isDigit c = true) : Unchanged c := by
  have hmargin := holds_of_isDigit (fun d => isMargin d = false) (by decide) h
  have hplain := holds_of_isDigit (fun d => plainDigit d = d) (by decide) h
  have hunderscore := holds_of_isDigit (fun d => d ≠ '_') (by decide) h
  exact ⟨hmargin, hplain, hunderscore⟩

theorem unchanged_point : Unchanged '.' :=
  ⟨by decide, by decide, by decide⟩

/-! ### Plain numerals are read -/

/-- Digits, or digits on both sides of a point. -/
inductive IsPlain : List Char → Prop
  | whole {digits : List Char} : digits ≠ [] → (∀ c ∈ digits, isDigit c = true) → IsPlain digits
  | point {digits part : List Char} : digits ≠ [] → (∀ c ∈ digits, isDigit c = true) →
    (∀ c ∈ part, isDigit c = true) → IsPlain (digits ++ '.' :: part)

theorem IsPlain.unchanged {cs : List Char} (h : IsPlain cs) : ∀ c ∈ cs, Unchanged c := by
  cases h with
  | whole _ hd => exact fun c hc => unchanged_of_isDigit (hd c hc)
  | point _ hd hp =>
    intro c hc
    rcases List.mem_append.1 hc with hc | hc
    · exact unchanged_of_isDigit (hd c hc)
    · rcases List.mem_cons.1 hc with rfl | hc
      · exact unchanged_point
      · exact unchanged_of_isDigit (hp c hc)

theorem IsPlain.newline_notMem {cs : List Char} (h : IsPlain cs) : '\n' ∉ cs := by
  have hnot : ¬ isDigit '\n' = true := by decide
  intro hmem
  cases h with
  | whole _ hd => exact hnot (hd _ hmem)
  | point _ hd hp =>
    rcases List.mem_append.1 hmem with hmem | hmem
    · exact hnot (hd _ hmem)
    · rcases List.mem_cons.1 hmem with heq | hmem
      · simp at heq
      · exact hnot (hp _ hmem)

theorem IsPlain.head {cs : List Char} (h : IsPlain cs) :
    ∃ c rest, cs = c :: rest ∧ isDigit c = true := by
  cases h with
  | @whole digits hne hd =>
    obtain ⟨c, rest, rfl⟩ := List.exists_cons_of_ne_nil hne
    exact ⟨c, rest, rfl, hd c List.mem_cons_self⟩
  | @point digits part hne hd hp =>
    obtain ⟨c, rest, rfl⟩ := List.exists_cons_of_ne_nil hne
    exact ⟨c, _, rfl, hd c List.mem_cons_self⟩

theorem trimBoth_eq_self {p : Char → Bool} {cs : List Char} (h : ∀ c ∈ cs, p c = false) :
    Text.trimBoth p cs = cs := by
  have hkeep : ∀ {l : List Char}, (∀ c ∈ l, p c = false) → l.dropWhile p = l := by
    intro l hl
    refine List.dropWhile_eq_self_iff.2 fun hpos => ?_
    simp [hl _ (List.getElem_mem hpos)]
  unfold Text.trimBoth Text.dropEndWhile
  rw [hkeep h, hkeep, List.reverse_reverse]
  exact fun c hc => h c (List.mem_reverse.1 hc)

theorem dropUnderscores_eq_some {cs : List Char} (h : ∀ c ∈ cs, c ≠ '_') (afterDigit : Bool) :
    dropUnderscores afterDigit cs = some cs := by
  induction cs generalizing afterDigit with
  | nil => rfl
  | cons c rest ih =>
    have hc : c ≠ '_' := h c List.mem_cons_self
    have hrest := ih (fun d hd => h d (List.mem_cons_of_mem c hd)) (isDigit c)
    rw [dropUnderscores.eq_4 _ _ _ hc, hrest]
    rfl

/-- A numeral that starts with a digit has no sign. -/
theorem splitSign_of_isDigit {c : Char} (h : isDigit c = true) (rest : List Char) :
    splitSign (c :: rest) = (false, c :: rest) := by
  have hminus := holds_of_isDigit (fun d => d ≠ '-') (by decide) h
  have hplus := holds_of_isDigit (fun d => d ≠ '+') (by decide) h
  exact splitSign.eq_3 _ (fun _ heq => hminus (List.cons.inj heq).1)
    (fun _ heq => hplus (List.cons.inj heq).1)

/-- A numeral that starts with a digit is no word for infinity or NaN. -/
theorem readMagnitude?_of_head {c : Char} (h : isDigit c = true) (rest : List Char) :
    readMagnitude? (c :: rest) =
      (dropUnderscores false (c :: rest)).bind fun digits =>
        (readDecimal? digits).map Decimal.round := by
  have hi := holds_of_isDigit (fun d => d.toLower ≠ 'i') (by decide) h
  have hn := holds_of_isDigit (fun d => d.toLower ≠ 'n') (by decide) h
  have hne : ∀ {d : Char} {word : List Char}, c.toLower ≠ d →
      String.ofList ((c :: rest).map Char.toLower) ≠ String.ofList (d :: word) := by
    intro d word hd heq
    have hlist := congrArg String.toList heq
    rw [String.toList_ofList, String.toList_ofList] at hlist
    exact hd (List.cons.inj hlist).1
  have hinf : String.ofList ((c :: rest).map Char.toLower) ≠ "inf" := hne hi
  have hinfinity : String.ofList ((c :: rest).map Char.toLower) ≠ "infinity" := hne hi
  have hnan : String.ofList ((c :: rest).map Char.toLower) ≠ "nan" := hne hn
  unfold readMagnitude?
  simp only [hinf, hinfinity, hnan, decide_false, Bool.or_self, Bool.false_eq_true, if_false]

theorem readDecimal?_of_isPlain {cs : List Char} (h : IsPlain cs) :
    ∃ d, readDecimal? cs = some d := by
  have hspan : ∀ {digits : List Char}, (∀ c ∈ digits, isDigit c = true) →
      digits.takeWhile isDigit = digits ∧ digits.dropWhile isDigit = [] := by
    intro digits hd
    exact ⟨List.takeWhile_eq_self_iff.2 hd, List.dropWhile_eq_nil_iff.2 hd⟩
  unfold readDecimal?
  cases h with
  | whole hne hd =>
    rw [(hspan hd).1, (hspan hd).2]
    simp [hne, readPower?]
  | @point digits part hne hd hp =>
    rw [List.takeWhile_append_of_pos hd, List.dropWhile_append_of_pos hd]
    have hpoint : ¬ isDigit '.' = true := by decide
    rw [List.takeWhile_cons_of_neg hpoint, List.dropWhile_cons_of_neg hpoint, List.append_nil]
    simp [hne, (hspan hp).1, (hspan hp).2, readPower?]

/-- Every plain numeral is read. -/
theorem readNumeral?_of_isPlain {cs : List Char} (h : IsPlain cs) :
    ∃ x, readNumeral? (String.ofList cs) = some x := by
  obtain ⟨d, hd⟩ := readDecimal?_of_isPlain h
  have hun := h.unchanged
  obtain ⟨c, rest, rfl, hc⟩ := h.head
  have htrim : Text.trimBoth isMargin (c :: rest) = c :: rest :=
    trimBoth_eq_self fun c hc => (hun c hc).notMargin
  have hmap : (c :: rest).map plainDigit = c :: rest := by
    rw [List.map_congr_left fun c hc => (hun c hc).plain, List.map_id']
  have hsign := splitSign_of_isDigit hc rest
  have hdrop := dropUnderscores_eq_some (fun c hc => (hun c hc).notUnderscore) false
  unfold readNumeral?
  rw [String.toList_ofList, htrim, hmap]
  simp only [hsign, readMagnitude?_of_head hc, hdrop, Option.bind_some, hd, Option.map_some]
  exact ⟨_, rfl⟩

/-! ### The scanner takes plain numerals -/

/-- What the scanner takes as a number is a plain numeral. -/
theorem isPlain_splitNumber {c : Char} (h : isDigit c = true) (rest : List Char) :
    IsPlain (Segment.splitNumber (c :: rest)).1 := by
  have hne : (c :: rest).takeWhile isDigit ≠ [] := by
    rw [List.takeWhile_cons_of_pos h]
    exact List.cons_ne_nil _ _
  have hall : ∀ (cs : List Char), ∀ d ∈ cs.takeWhile isDigit, isDigit d = true :=
    fun cs d hd => List.all_eq_true.1 List.all_takeWhile d hd
  unfold Segment.splitNumber
  split
  · split
    · exact .point hne (hall _) (hall _)
    · exact .whole hne (hall _)
  · exact .whole hne (hall _)

end LoxTree.Number
