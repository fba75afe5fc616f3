import LoxTree.Number.Layout
import LoxTree.Proofs.Number.Doubles
import LoxTree.Proofs.Number.Rounding
import LoxTree.Proofs.Scanning.Numeral

/-!
# Texts of numbers are read back

The text of a finite double is a numeral that denotes its shortest decimal, perhaps with zeros added
at the end, so reading it gives the double.

* `Written`: a numeral by its parts, with the decimal that it denotes.
* `Written.readNumeral?_text`: reading a numeral gives the double nearest to its decimal.
* `exists_written`: what a layout writes for a finite double is a numeral of that kind.
-/

namespace LoxTree.Number

/-! ### Numerals by their parts -/

/-- A numeral by its parts: the digits before the point, those behind it, and the sign and the
digits of a power of ten. -/
structure Written where
  whole : List Char
  part : List Char := []
  power : Option (Bool × List Char) := none

namespace Written

/-- The point and the digits behind it. -/
def fractionText (w : Written) : List Char :=
  if w.part = [] then [] else '.' :: w.part

/-- The power of ten with its mark. -/
def powerText (w : Written) : List Char :=
  match w.power with
  | some (negative, digits) => 'e' :: (if negative then '-' else '+') :: digits
  | none => []

/-- The characters of a numeral. -/
def text (w : Written) : List Char :=
  w.whole ++ (w.fractionText ++ w.powerText)

/-- The value of the power of ten. -/
def exponent (w : Written) : Int :=
  match w.power with
  | some (negative, digits) => if negative then -(ofDigits digits : Int) else ofDigits digits
  | none => 0

/-- The decimal that a numeral denotes. -/
def decimal (w : Written) : Decimal :=
  ⟨ofDigits (w.whole ++ w.part), w.exponent - w.part.length⟩

/-- There are digits where digits belong, and some before the point and in the power. -/
structure Proper (w : Written) : Prop where
  whole_ne : w.whole ≠ []
  whole : ∀ c ∈ w.whole, isDigit c = true
  part : ∀ c ∈ w.part, isDigit c = true
  power_ne : ∀ p ∈ w.power, p.2 ≠ []
  power : ∀ p ∈ w.power, ∀ c ∈ p.2, isDigit c = true

end Written

namespace Written

variable {w : Written}

theorem powerText_cases (w : Written) : w.powerText = [] ∨ ∃ rest, w.powerText = 'e' :: rest := by
  unfold powerText
  split
  · exact .inr ⟨_, rfl⟩
  · exact .inl rfl

theorem head_powerText (w : Written) : ∀ c ∈ w.powerText.head?, isDigit c = false := by
  intro c hc
  rcases w.powerText_cases with hempty | ⟨rest, hmark⟩
  · rw [hempty] at hc
    cases hc
  · rw [hmark] at hc
    cases hc
    decide

theorem Proper.readPower?_powerText (h : w.Proper) : readPower? w.powerText = some w.exponent := by
  unfold powerText exponent
  cases hpower : w.power with
  | none => rfl
  | some p =>
    obtain ⟨negative, digits⟩ := p
    have hne : digits ≠ [] := h.power_ne (negative, digits) hpower
    have hall : digits.all isDigit = true :=
      List.all_eq_true.2 (h.power (negative, digits) hpower)
    have hexp : ∀ cs : List Char, splitSign cs = (negative, digits) →
        readExponent? cs =
          some (if negative then -(ofDigits digits : Int) else ofDigits digits) := by
      intro cs hcs
      unfold readExponent?
      simp [hcs, hne, hall]
    cases negative with
    | true => exact hexp ('-' :: digits) rfl
    | false => exact hexp ('+' :: digits) rfl

/-- A numeral is read as the decimal that it denotes. -/
theorem Proper.readDecimal?_text (h : w.Proper) : readDecimal? w.text = some w.decimal := by
  have hpower := h.readPower?_powerText
  have hempty : w.whole.isEmpty = false := by simpa using h.whole_ne
  unfold text readDecimal?
  by_cases hpart : w.part = []
  · have hfraction : w.fractionText = [] := if_pos hpart
    rw [hfraction, List.nil_append, takeWhile_append_of_stop h.whole w.head_powerText,
      dropWhile_append_of_stop h.whole w.head_powerText]
    -- no point follows, so there are no digits behind one
    rcases w.powerText_cases with hempty' | ⟨digits, hmark⟩
    · rw [hempty'] at hpower ⊢
      simp [hempty, hpower, decimal, hpart]
    · rw [hmark] at hpower ⊢
      simp [hempty, hpower, decimal, hpart]
  · have hfraction : w.fractionText = '.' :: w.part := if_neg hpart
    have hstop : ∀ c ∈ ('.' :: (w.part ++ w.powerText)).head?, isDigit c = false := by
      rintro c ⟨⟩
      decide
    rw [hfraction, List.cons_append, takeWhile_append_of_stop h.whole hstop,
      dropWhile_append_of_stop h.whole hstop]
    simp only [hempty, Bool.false_and, Bool.false_eq_true, if_false,
      takeWhile_append_of_stop h.part w.head_powerText,
      dropWhile_append_of_stop h.part w.head_powerText, hpower, Option.map_some]
    rfl

theorem unchanged_mark {c : Char} (h : c ∈ ['.', 'e', '-', '+']) : Unchanged c := by
  obtain ⟨hmargin, hplain, hunderscore⟩ :=
    holds_of_mem (fun c => isMargin c = false ∧ plainDigit c = c ∧ c ≠ '_') (by decide) h
  exact ⟨hmargin, hplain, hunderscore⟩

theorem Proper.unchanged_text (h : w.Proper) : ∀ c ∈ w.text, Unchanged c := by
  have hfraction : ∀ c ∈ w.fractionText, Unchanged c := by
    unfold fractionText
    split
    · nofun
    · intro c hc
      rcases List.mem_cons.1 hc with rfl | hc
      · exact unchanged_mark (by decide)
      · exact unchanged_of_isDigit (h.part c hc)
  have hpower : ∀ c ∈ w.powerText, Unchanged c := by
    unfold powerText
    cases hpower : w.power with
    | none => nofun
    | some p =>
      intro c hc
      rcases List.mem_cons.1 hc with rfl | hc
      · exact unchanged_mark (by decide)
      · rcases List.mem_cons.1 hc with rfl | hc
        · cases p.1 <;> exact unchanged_mark (by decide)
        · exact unchanged_of_isDigit (h.power p hpower c hc)
  intro c hc
  rcases List.mem_append.1 hc with hc | hc
  · exact unchanged_of_isDigit (h.whole c hc)
  · rcases List.mem_append.1 hc with hc | hc
    · exact hfraction c hc
    · exact hpower c hc

theorem Proper.head_text (h : w.Proper) : ∃ c rest, w.text = c :: rest ∧ isDigit c = true := by
  obtain ⟨c, rest, hwhole⟩ := List.exists_cons_of_ne_nil h.whole_ne
  refine ⟨c, rest ++ (w.fractionText ++ w.powerText), ?_, h.whole c (by simp [hwhole])⟩
  rw [text, hwhole, List.cons_append]

/-- The sign of a numeral is what stands before its digits. -/
theorem Proper.splitSign_text (h : w.Proper) (negative : Bool) :
    splitSign ((if negative then ['-'] else []) ++ w.text) = (negative, w.text) := by
  obtain ⟨c, rest, htext, hc⟩ := h.head_text
  cases negative with
  | true => rfl
  | false =>
    rw [htext]
    exact splitSign_of_isDigit hc rest

/-- A numeral with its sign is read as the double nearest to the decimal that it denotes. -/
theorem Proper.readNumeral?_text (h : w.Proper) (negative : Bool) :
    readNumeral? (String.ofList ((if negative then ['-'] else []) ++ w.text)) =
      some (ofMagnitude negative w.decimal.round) := by
  have hdecimal := h.readDecimal?_text
  have hun := h.unchanged_text
  have hsign := h.splitSign_text negative
  obtain ⟨c, rest, htext, hc⟩ := h.head_text
  have hmagnitude : readMagnitude? w.text = some w.decimal.round := by
    have hdrop := dropUnderscores_eq_some (fun c hc => (hun c hc).notUnderscore) false
    rw [htext] at hdrop hdecimal ⊢
    rw [readMagnitude?_of_head hc, hdrop, Option.bind_some, hdecimal, Option.map_some]
  have hall : ∀ c ∈ (if negative then ['-'] else []) ++ w.text, Unchanged c := by
    intro c hc
    rcases List.mem_append.1 hc with hc | hc
    · split at hc
      · exact unchanged_mark (by simp_all)
      · cases hc
    · exact hun c hc
  unfold readNumeral?
  rw [String.toList_ofList, trimBoth_eq_self fun c hc => (hall c hc).notMargin,
    List.map_congr_left fun c hc => (hall c hc).plain, List.map_id']
  simp only [hsign, hmagnitude, Option.map_some]

end Written

/-! ### Digits of a number -/

theorem isDigit_of_mem_toDigits {n : Nat} {c : Char} (h : c ∈ Nat.toDigits 10 n) :
    isDigit c = true := by
  have hdigit := Nat.isDigit_of_mem_toDigits (by decide) (by decide) h
  unfold Char.isDigit at hdigit
  unfold isDigit
  simpa [Char.le_def] using hdigit

theorem ofDigits_append (digits more : List Char) :
    ofDigits (digits ++ more) = ofDigits digits * tenTo more.length + ofDigits more := by
  unfold ofDigits
  rw [List.foldl_append]
  have h := @Nat.ofDigitChars_eq_ofDigitChars_zero more (ofDigits digits)
  rw [Nat.mul_comm] at h
  exact h

theorem ofDigits_toDigits (n : Nat) : ofDigits (Nat.toDigits 10 n) = n :=
  Nat.ofDigitChars_ten_toDigits

theorem ofDigits_zeros (n : Nat) : ofDigits (List.replicate n '0') = 0 :=
  Nat.ofDigitChars_replicate_zero

theorem ofDigits_zeros_append (n : Nat) (digits : List Char) :
    ofDigits (List.replicate n '0' ++ digits) = ofDigits digits := by
  rw [ofDigits_append, ofDigits_zeros, Nat.zero_mul, Nat.zero_add]

theorem ofDigits_zero_cons (digits : List Char) : ofDigits ('0' :: digits) = ofDigits digits :=
  ofDigits_zeros_append 1 digits

/-- The digits of a positive number start with another digit than zero. -/
theorem head_toDigits {n : Nat} (hn : n ≠ 0) : ∀ c ∈ (Nat.toDigits 10 n).head?, c ≠ '0' := by
  induction n using Nat.strongRecOn with
  | ind n ih =>
    by_cases hlt : n < 10
    · have hdigits : ∀ m < 10, m ≠ 0 → m.digitChar ≠ '0' := by decide
      rw [Nat.toDigits_of_lt_base hlt]
      rintro c ⟨⟩
      exact hdigits n hlt hn
    · have hhead := ih (n / 10) (by omega) (by omega)
      rw [Nat.toDigits_of_base_le (by decide) (by omega)]
      obtain ⟨c, rest, heq⟩ := List.exists_cons_of_ne_nil (@Nat.toDigits_ne_nil (n / 10) 10)
      rw [heq] at hhead ⊢
      exact hhead

/-- The last digit of a number. -/
theorem getLast?_toDigits (n : Nat) :
    (Nat.toDigits 10 n).getLast? = some (n % 10).digitChar := by
  by_cases hlt : n < 10
  · rw [Nat.toDigits_of_lt_base hlt, Nat.mod_eq_of_lt hlt]
    rfl
  · rw [Nat.toDigits_of_base_le (by decide) (by omega), List.getLast?_concat]

/-! ### What a layout writes -/

namespace Decimal

/-- The same decimal with more zeros at the end of its coefficient. -/
def padded (d : Decimal) (zeros : Nat) : Decimal :=
  ⟨d.coefficient * tenTo zeros, d.exponent - zeros⟩

theorem round_padded (d : Decimal) (zeros : Nat) : (d.padded zeros).round = d.round := by
  rw [padded, round_mul_tenTo, Int.sub_add_cancel]

/-- The digits of a decimal with zeros on both sides of them denote it with those at the end. -/
theorem decimal_eq_padded {d : Decimal} {w : Written} (front back : Nat)
    (hdigits : w.whole ++ w.part =
      List.replicate front '0' ++ (Nat.toDigits 10 d.coefficient ++ List.replicate back '0'))
    (hexp : w.exponent - w.part.length = d.exponent - back) : w.decimal = d.padded back := by
  unfold Written.decimal padded
  rw [hdigits, ofDigits_zeros_append, ofDigits_append, ofDigits_toDigits, ofDigits_zeros,
    List.length_replicate, Nat.add_zero, hexp]

/-- A numeral with the given text that stands for a decimal, perhaps with zeros at the end. Its
first digit is zero only if it is the only one before the point. -/
structure IsWritten (d : Decimal) (cs : List Char) (w : Written) : Prop where
  proper : w.Proper
  text : w.text = cs
  padded : ∃ zeros, w.decimal = d.padded zeros
  leading : w.whole = ['0'] ∨ ∀ c ∈ w.whole.head?, c ≠ '0'

theorem IsWritten.round {d : Decimal} {cs : List Char} {w : Written} (h : d.IsWritten cs w) :
    w.decimal.round = d.round := by
  obtain ⟨zeros, hzeros⟩ := h.padded
  rw [hzeros, round_padded]

theorem IsWritten.self {d : Decimal} {cs : List Char} {w : Written} (h : d.IsWritten cs w) :
    d.IsWritten w.text w := by
  rw [h.text]
  exact h

section

variable {d : Decimal} {digits : List Char} (hdigits : Nat.toDigits 10 d.coefficient = digits)

include hdigits

theorem isDigit_digits : ∀ c ∈ digits, isDigit c = true :=
  fun _ hc => isDigit_of_mem_toDigits (hdigits ▸ hc)

theorem head_digits (hne : d.coefficient ≠ 0) : ∀ c ∈ digits.head?, c ≠ '0' :=
  hdigits ▸ head_toDigits hne

theorem digits_ne_nil : digits ≠ [] :=
  hdigits ▸ Nat.toDigits_ne_nil

/-- A whole number, with the given number of zeros behind its point. -/
theorem isWritten_whole (hexp : 0 ≤ d.exponent) (hzero : d.coefficient = 0 → d.exponent = 0)
    (places : Nat) :
    d.IsWritten (digits ++ List.replicate d.exponent.toNat '0' ++
        if places = 0 then [] else '.' :: List.replicate places '0')
      ⟨digits ++ List.replicate d.exponent.toNat '0', List.replicate places '0', none⟩ := by
  have hne := digits_ne_nil hdigits
  have hzeros : ∀ n, ∀ c ∈ List.replicate n '0', isDigit c = true := by
    intro n c hc
    rw [(List.mem_replicate.1 hc).2]
    decide
  refine ⟨⟨by simp [hne], ?_, hzeros places, nofun, nofun⟩, ?_, ?_, ?_⟩
  · intro c hc
    rcases List.mem_append.1 hc with hc | hc
    · exact isDigit_digits hdigits c hc
    · exact hzeros _ c hc
  · unfold Written.text Written.fractionText Written.powerText
    simp [List.replicate_eq_nil_iff]
  · refine ⟨_, decimal_eq_padded 0 (d.exponent.toNat + places) ?_ ?_⟩
    · simp [hdigits, List.replicate_append_replicate]
    · show (0 : Int) - (List.replicate places '0').length = _
      rw [List.length_replicate]
      omega
  · by_cases hcoefficient : d.coefficient = 0
    · left
      rw [← hdigits, hcoefficient, hzero hcoefficient]
      rfl
    · right
      have hhead := head_digits hdigits hcoefficient
      obtain ⟨c, rest, rfl⟩ := List.exists_cons_of_ne_nil hne
      exact hhead

/-- A number with digits on both sides of its point. -/
theorem isWritten_mixed {places : Nat} (hexp : d.exponent = -places) (hpos : 0 < places)
    (hlt : places < digits.length) :
    d.IsWritten
      (digits.take (digits.length - places) ++ '.' :: digits.drop (digits.length - places))
      ⟨digits.take (digits.length - places), digits.drop (digits.length - places), none⟩ := by
  have hne : d.coefficient ≠ 0 := by
    intro hzero
    rw [← hdigits, hzero] at hlt
    have hone : (Nat.toDigits 10 0).length = 1 := rfl
    omega
  have hdigit := isDigit_digits hdigits
  have htake : digits.length - places ≠ 0 := by omega
  refine ⟨⟨?_, ?_, ?_, nofun, nofun⟩, ?_, ?_, ?_⟩
  · simp [htake, digits_ne_nil hdigits]
  · exact fun c hc => hdigit c (List.mem_of_mem_take hc)
  · exact fun c hc => hdigit c (List.mem_of_mem_drop hc)
  · have hpart : digits.drop (digits.length - places) ≠ [] := by
      rw [Ne, List.drop_eq_nil_iff]
      omega
    unfold Written.text Written.fractionText Written.powerText
    rw [if_neg hpart, List.append_nil]
  · refine ⟨_, decimal_eq_padded 0 0 ?_ ?_⟩
    · simp [hdigits]
    · show (0 : Int) - (digits.drop (digits.length - places)).length = _
      rw [List.length_drop]
      omega
  · right
    intro c hc
    rw [List.head?_take, if_neg htake] at hc
    exact head_digits hdigits hne c hc

/-- A number with nothing but zero before its point. -/
theorem isWritten_small {places : Nat} (hexp : d.exponent = -places)
    (hle : digits.length ≤ places) :
    d.IsWritten ('0' :: '.' :: List.replicate (places - digits.length) '0' ++ digits)
      ⟨['0'], List.replicate (places - digits.length) '0' ++ digits, none⟩ := by
  refine ⟨⟨by simp, ?_, ?_, nofun, nofun⟩, ?_, ?_, .inl rfl⟩
  · intro c hc
    rw [List.mem_singleton.1 hc]
    decide
  · intro c hc
    rcases List.mem_append.1 hc with hc | hc
    · rw [(List.mem_replicate.1 hc).2]
      decide
    · exact isDigit_digits hdigits c hc
  · unfold Written.text Written.fractionText Written.powerText
    simp [digits_ne_nil hdigits]
  · refine ⟨_, decimal_eq_padded (places - digits.length + 1) 0 ?_ ?_⟩
    · simp [hdigits, List.replicate_succ]
    · show (0 : Int) - (List.replicate (places - digits.length) '0' ++ digits).length = _
      rw [List.length_append, List.length_replicate]
      omega

end

/-- The digits of a power of ten. -/
def powerDigits (n : Int) : List Char :=
  if (Nat.toDigits 10 n.natAbs).length < 2 then '0' :: Nat.toDigits 10 n.natAbs
  else Nat.toDigits 10 n.natAbs

theorem ofDigits_powerDigits (n : Int) : ofDigits (powerDigits n) = n.natAbs := by
  unfold powerDigits
  split
  · rw [ofDigits_zero_cons, ofDigits_toDigits]
  · rw [ofDigits_toDigits]

theorem isDigit_powerDigits (n : Int) : ∀ c ∈ powerDigits n, isDigit c = true := by
  unfold powerDigits
  split
  · intro c hc
    rcases List.mem_cons.1 hc with rfl | hc
    · decide
    · exact isDigit_of_mem_toDigits hc
  · exact fun _ => isDigit_of_mem_toDigits

theorem powerDigits_ne_nil (n : Int) : powerDigits n ≠ [] := by
  unfold powerDigits
  split <;> simp

/-- A number with one digit before its point and a power of ten. -/
theorem isWritten_scientific {d : Decimal} {digits : List Char}
    (hdigits : Nat.toDigits 10 d.coefficient = digits) (hne : d.coefficient ≠ 0) :
    d.IsWritten d.scientific ⟨digits.take 1, digits.drop 1,
      some (decide (d.leadingPower < 0), powerDigits d.leadingPower)⟩ := by
  have hpower : d.leadingPower = d.exponent + (digits.length - 1 : Nat) := by
    unfold leadingPower digitCount
    rw [hdigits]
  refine ⟨⟨?_, ?_, ?_, ?_, ?_⟩, ?_, ?_, ?_⟩
  · simp [digits_ne_nil hdigits]
  · exact fun c hc => isDigit_digits hdigits c (List.mem_of_mem_take hc)
  · exact fun c hc => isDigit_digits hdigits c (List.mem_of_mem_drop hc)
  · rintro _ ⟨⟩
    exact powerDigits_ne_nil _
  · rintro _ ⟨⟩
    exact isDigit_powerDigits _
  · unfold scientific exponentText Written.text Written.fractionText Written.powerText
    dsimp only
    rw [hdigits, ← hpower, List.append_assoc]
    congr 1
    unfold powerDigits
    simp only [List.isEmpty_iff, decide_eq_true_eq]
  · refine ⟨_, decimal_eq_padded 0 0 ?_ ?_⟩
    · simp only [List.take_append_drop, hdigits, List.replicate_zero, List.nil_append,
        List.append_nil]
    · unfold Written.exponent
      dsimp only
      rw [ofDigits_powerDigits, List.length_drop]
      by_cases hneg : d.leadingPower < 0
      · rw [if_pos (by simpa using hneg)]
        omega
      · rw [if_neg (by simpa using hneg)]
        omega
  · right
    intro c hc
    rw [List.head?_take, if_neg (by decide)] at hc
    exact head_digits hdigits hne c hc

/-- A decimal written positionally. A mark behind a whole number is a point with zeros, or nothing;
without such a mark the digits behind a point are the last ones of the coefficient. -/
theorem exists_isWritten_positional {d : Decimal} (hzero : d.coefficient = 0 → d.exponent = 0)
    {mark : String} {places : Nat}
    (hmark : mark.toList = if places = 0 then [] else '.' :: List.replicate places '0') :
    ∃ w, d.IsWritten (d.positional mark) w ∧ w.power = none ∧ (places ≠ 0 → w.part ≠ []) ∧
      (places = 0 → ∀ c ∈ w.part.getLast?,
        d.exponent < 0 ∧ c = (d.coefficient % 10).digitChar) := by
  have hlast := getLast?_toDigits d.coefficient
  unfold positional
  dsimp only
  split
  next hexp =>
    rw [hmark]
    refine ⟨_, isWritten_whole rfl hexp hzero places, rfl, by simp, fun hplaces => ?_⟩
    simp [hplaces]
  next hexp =>
    have hplaces : d.exponent = -((-d.exponent).toNat : Int) := by omega
    split
    next hlt =>
      refine ⟨_, isWritten_mixed rfl hplaces (by omega) hlt, rfl, fun _ => ?_, fun _ c hc => ?_⟩
      · rw [Ne, List.drop_eq_nil_iff]
        omega
      · rw [List.getLast?_drop, if_neg (by omega), hlast] at hc
        exact ⟨by omega, (Option.some.inj hc).symm⟩
    next hlt =>
      refine ⟨_, isWritten_small rfl hplaces (by omega), rfl, fun _ => ?_, fun _ c hc => ?_⟩
      · simp
      · rw [List.getLast?_append, hlast, Option.some_or] at hc
        exact ⟨by omega, (Option.some.inj hc).symm⟩

end Decimal

theorem normalize_eq_zero {coefficient : Nat} {exponent : Int}
    (h : (Decimal.normalize coefficient exponent).coefficient = 0) :
    (Decimal.normalize coefficient exponent).exponent = 0 := by
  fun_induction Decimal.normalize coefficient exponent with
  | case1 => rfl
  | case2 _ _ _ _ ih => exact ih h
  | case3 _ _ hne _ => exact absurd h hne

/-- A finite double is written as its sign and its shortest decimal, with or without a power of
ten. -/
theorem Layout.write_of_finite (layout : Layout) {x : Float} (hx : magnitude x < infinityBits) :
    layout.write x = String.ofList ((if isNegative x then ['-'] else []) ++
      if layout.positional (shortest (magnitude x)).leadingPower then
        (shortest (magnitude x)).positional layout.wholeMark
      else (shortest (magnitude x)).scientific) := by
  unfold Layout.write
  dsimp only
  rw [if_neg (by omega), if_neg (by omega), String.ofList_append]
  cases isNegative x <;> rfl

/-- What a layout writes for a finite double is a numeral for its shortest decimal. The layout
writes zero positionally, and its mark for whole numbers is a point with zeros, or nothing. -/
theorem Layout.exists_isWritten (layout : Layout) {places : Nat}
    (hmark : layout.wholeMark.toList =
      if places = 0 then [] else '.' :: List.replicate places '0')
    (hzero : layout.positional 0 = true) {x : Float} (hx : magnitude x < infinityBits) :
    ∃ w : Written, (shortest (magnitude x)).IsWritten w.text w ∧
      layout.write x = String.ofList ((if isNegative x then ['-'] else []) ++ w.text) ∧
      (places ≠ 0 → w.part ≠ [] ∨ w.power ≠ none) := by
  have hnormal : (shortest (magnitude x)).coefficient = 0 →
      (shortest (magnitude x)).exponent = 0 := normalize_eq_zero
  rw [layout.write_of_finite hx]
  generalize shortest (magnitude x) = d at *
  by_cases hpos : layout.positional d.leadingPower = true
  · obtain ⟨w, hw, -, hpart, -⟩ := Decimal.exists_isWritten_positional hnormal hmark
    exact ⟨w, hw.self, by rw [if_pos hpos, hw.text], fun h => .inl (hpart h)⟩
  · have hne : d.coefficient ≠ 0 := by
      intro hcoefficient
      refine hpos ?_
      have hpower : d.leadingPower = 0 := by
        unfold Decimal.leadingPower
        rw [hcoefficient, hnormal hcoefficient]
        rfl
      rw [hpower, hzero]
    have hw := Decimal.isWritten_scientific rfl hne
    exact ⟨_, hw.self, by rw [if_neg hpos, hw.text], fun _ => .inr (by simp)⟩

/-- What a layout writes for a finite double is a numeral that denotes a decimal which rounds to the
double's magnitude. -/
theorem Layout.exists_written (layout : Layout) {places : Nat}
    (hmark : layout.wholeMark.toList =
      if places = 0 then [] else '.' :: List.replicate places '0')
    (hzero : layout.positional 0 = true) {x : Float} (hx : magnitude x < infinityBits) :
    ∃ w : Written, w.Proper ∧
      layout.write x = String.ofList ((if isNegative x then ['-'] else []) ++ w.text) ∧
      w.decimal.round = magnitude x ∧
      (w.whole = ['0'] ∨ ∀ c ∈ w.whole.head?, c ≠ '0') ∧
      (places ≠ 0 → w.part ≠ [] ∨ w.power ≠ none) := by
  obtain ⟨w, hw, hwrite, hmarked⟩ := layout.exists_isWritten hmark hzero hx
  exact ⟨w, hw.proper, hwrite, hw.round.trans (round_shortest hx), hw.leading, hmarked⟩

end LoxTree.Number
