import LoxTree.Number.Decimal
import Mathlib.Algebra.Ring.Nat

/-!
# Decimals and the doubles nearest to them

Rounding depends on the value of a fraction and not on how it is written, so a decimal may gain or
lose zeros at its end, and a double is the nearest one to its own value. So the shortest decimal of
a double rounds to it.

* `roundRatio_mul_right`: rounding depends on the value of a fraction.
* `roundRatio_at_place`: what a fraction rounds to when the place of its last bit is known.
* `roundRatio_numerator`: a finite double is the nearest one to its own value.
* `Decimal.round_eq`: what is decided without the power of ten is decided as with it.
* `round_shortest`: the shortest decimal of a finite double rounds to it.
-/

namespace LoxTree.Number

/-! ### Fractions -/

theorem roundDiv_mul_right (num den : Nat) {k : Nat} (hk : 0 < k) :
    roundDiv (num * k) (den * k) = roundDiv num den := by
  have hlt : 2 * (num % den * k) < den * k ↔ 2 * (num % den) < den := by
    rw [← Nat.mul_assoc]
    exact Nat.mul_lt_mul_right hk
  have hgt : den * k < 2 * (num % den * k) ↔ den < 2 * (num % den) := by
    rw [← Nat.mul_assoc]
    exact Nat.mul_lt_mul_right hk
  unfold roundDiv
  simp only [Nat.mul_div_mul_right num den hk, Nat.mul_mod_mul_right, hlt, hgt]

/-- Rounding depends on the value of a fraction. -/
theorem roundRatio_mul_right (num den : Nat) {k : Nat} (hk : 0 < k) :
    roundRatio (num * k) (den * k) = roundRatio num den := by
  have hscaled : num * k * denominator = num * denominator * k := Nat.mul_right_comm _ _ _
  have hden : ∀ place, den * k * Nat.pow 2 place = den * Nat.pow 2 place * k :=
    fun _ => Nat.mul_right_comm _ _ _
  unfold roundRatio
  simp only [hscaled, hden, Nat.mul_div_mul_right _ den hk, roundDiv_mul_right _ _ hk]

/-- Rounding goes to a whole number next to the quotient, on the side of the middle between the two
on which the quotient lies. -/
theorem roundDiv_eq_or (num den : Nat) :
    roundDiv num den = num / den ∧ 2 * num ≤ (2 * (num / den) + 1) * den ∨
      roundDiv num den = num / den + 1 ∧ (2 * (num / den) + 1) * den ≤ 2 * num := by
  have hnum := Nat.div_add_mod num den
  have hmiddle : (2 * (num / den) + 1) * den = 2 * (den * (num / den)) + den := by
    rw [Nat.add_mul, Nat.one_mul, Nat.mul_assoc, Nat.mul_comm den]
  rw [hmiddle]
  unfold roundDiv
  dsimp only
  split_ifs <;> omega

theorem div_le_roundDiv (num den : Nat) : num / den ≤ roundDiv num den := by
  rcases roundDiv_eq_or num den with ⟨hround, -⟩ | ⟨hround, -⟩ <;> omega

theorem roundDiv_le_succ (num den : Nat) : roundDiv num den ≤ num / den + 1 := by
  rcases roundDiv_eq_or num den with ⟨hround, -⟩ | ⟨hround, -⟩ <;> omega

theorem pow_two_pos (n : Nat) : 0 < Nat.pow 2 n :=
  Nat.pow_pos (by decide)

theorem denominator_pos : 0 < denominator := by
  unfold denominator
  generalize 1074 = n
  exact pow_two_pos n

/-- A number is rounded at the place from which on it has 53 bits. -/
theorem log2_sub_eq {q place : Nat} (hhigh : q < 2 ^ (place + 53))
    (hlow : place = 0 ∨ 2 ^ (place + 52) ≤ q) : q.log2 - 52 = place := by
  by_cases hzero : q = 0
  · have hpos : 0 < 2 ^ (place + 52) := Nat.two_pow_pos _
    rw [hzero, Nat.log2_zero]
    omega
  · have hlt := (Nat.log2_lt hzero).2 hhigh
    rcases hlow with rfl | hlow
    · omega
    · have hle := (Nat.le_log2 hzero).2 hlow
      omega

/-- A fraction that is rounded at the given place. -/
theorem roundRatio_at_place {a k place : Nat} (hk : 0 < k) (hhigh : a < 2 ^ 53 * k)
    (hlow : place = 0 ∨ 2 ^ 52 * k ≤ a) :
    roundRatio (a * Nat.pow 2 place) (denominator * k) =
      min (place * leadingBit + roundDiv a k) infinityBits := by
  have hpow := pow_two_pos place
  have hscaled :
      a * Nat.pow 2 place * denominator / (denominator * k) = a * Nat.pow 2 place / k := by
    rw [Nat.mul_comm _ denominator, Nat.mul_div_mul_left _ _ denominator_pos]
  have hround : roundDiv (a * Nat.pow 2 place * denominator)
      (denominator * k * Nat.pow 2 place) = roundDiv a k := by
    rw [Nat.mul_assoc a, Nat.mul_comm denominator k, Nat.mul_assoc k, Nat.mul_comm denominator]
    exact roundDiv_mul_right a k (Nat.mul_pos hpow denominator_pos)
  have hplace : (a * Nat.pow 2 place / k).log2 - 52 = place := by
    apply log2_sub_eq
    · rw [Nat.div_lt_iff_lt_mul hk, Nat.pow_add, Nat.mul_comm a, Nat.mul_assoc]
      exact Nat.mul_lt_mul_of_pos_left hhigh hpow
    · refine hlow.imp_right fun hlow => ?_
      rw [Nat.le_div_iff_mul_le hk, Nat.pow_add, Nat.mul_comm a, Nat.mul_assoc]
      exact Nat.mul_le_mul_left _ hlow
  unfold roundRatio
  dsimp only
  rw [hscaled, hplace, hround]

theorem significand_lt (bits : Nat) : significand bits < 2 ^ 53 := by
  unfold significand leadingBit
  split <;> omega

theorem scale_eq_zero_or (bits : Nat) : scale bits = 0 ∨ 2 ^ 52 ≤ significand bits := by
  unfold scale significand leadingBit
  split <;> omega

/-- A finite double is the nearest one to its own value. -/
theorem roundRatio_numerator {bits : Nat} (h : bits < infinityBits) :
    roundRatio (numerator bits) denominator = bits := by
  have hhigh : significand bits < 2 ^ 53 * 1 := significand_lt bits
  have hlow : scale bits = 0 ∨ 2 ^ 52 * 1 ≤ significand bits := scale_eq_zero_or bits
  have hwhole : roundDiv (significand bits) 1 = significand bits := by
    simp [roundDiv, Nat.mod_one]
  have hround := roundRatio_at_place Nat.one_pos hhigh hlow
  rw [Nat.mul_one, hwhole, scale_significand, Nat.min_eq_left (Nat.le_of_lt h)] at hround
  exact hround

/-! ### Fractions beyond the doubles -/

/-- A number of 53 bits or more keeps its leading bit when it is rounded. -/
theorem leadingBit_le_roundDiv {num den place : Nat} (h : 52 + place ≤ (num / den).log2)
    (hne : num / den ≠ 0) : leadingBit ≤ roundDiv num (den * Nat.pow 2 place) := by
  have hlow : 2 ^ (52 + place) ≤ num / den := (Nat.le_log2 hne).1 h
  calc leadingBit ≤ num / den / Nat.pow 2 place := by
        rw [Nat.le_div_iff_mul_le (pow_two_pos place)]
        rwa [Nat.pow_add] at hlow
    _ = num / (den * Nat.pow 2 place) := Nat.div_div_eq_div_mul _ _ _
    _ ≤ roundDiv num (den * Nat.pow 2 place) := div_le_roundDiv _ _

/-- A fraction whose whole part has more than 2098 bits over `denominator` is beyond the largest
double. -/
theorem roundRatio_eq_infinity {num den : Nat} (h : 2098 ≤ (num * denominator / den).log2) :
    roundRatio num den = infinityBits := by
  have hne : num * denominator / den ≠ 0 := by
    intro hzero
    rw [hzero, Nat.log2_zero] at h
    omega
  obtain ⟨place, hplace⟩ : ∃ place, (num * denominator / den).log2 - 52 = place := ⟨_, rfl⟩
  have hsignificand := leadingBit_le_roundDiv (show 52 + place ≤ _ by omega) hne
  have hle : infinityBits ≤ place * leadingBit +
      roundDiv (num * denominator) (den * Nat.pow 2 place) := by
    unfold infinityBits
    unfold leadingBit at *
    omega
  unfold roundRatio
  dsimp only
  rw [hplace]
  exact Nat.min_eq_right hle

/-- A fraction below half of the least positive double rounds to zero. -/
theorem roundRatio_eq_zero {num den : Nat} (h : 2 * (num * denominator) < den) :
    roundRatio num den = 0 := by
  have hquot : num * denominator / den = 0 := Nat.div_eq_of_lt (by omega)
  have hmod : num * denominator % den = num * denominator := Nat.mod_eq_of_lt (by omega)
  have hround : roundDiv (num * denominator) den = 0 := by
    unfold roundDiv
    simp only [hquot, hmod]
    rw [if_pos h]
  have hone : den * Nat.pow 2 (Nat.log2 0 - 52) = den := Nat.mul_one den
  unfold roundRatio
  dsimp only
  rw [hquot, hone, hround]
  decide

/-! ### Powers of ten -/

theorem tenTo_add (m n : Nat) : tenTo (m + n) = tenTo m * tenTo n :=
  Nat.pow_add 10 m n

theorem tenTo_pos (n : Nat) : 0 < tenTo n :=
  Nat.pow_pos (by decide)

theorem two_pow_le_tenTo (n : Nat) : 2 ^ (3 * n) ≤ tenTo n := by
  rw [Nat.pow_mul]
  exact Nat.pow_le_pow_left (by decide) n

/-- A sharper bound for the powers of `10 ^ 62`. -/
theorem two_pow_le_tenTo_mul (n : Nat) : 2 ^ (205 * n) ≤ tenTo (62 * n) := by
  have hbase : 2 ^ 205 ≤ 10 ^ 62 := by decide
  have hpow : tenTo (62 * n) = (10 ^ 62) ^ n := Nat.pow_mul 10 62 n
  rw [Nat.pow_mul, hpow]
  exact Nat.pow_le_pow_left hbase n

theorem log2_tenTo {n : Nat} (h : 310 ≤ n) : 1024 ≤ (tenTo n).log2 := by
  obtain ⟨k, hk⟩ : ∃ k, k = 5 := ⟨5, rfl⟩
  obtain ⟨rest, rfl⟩ : ∃ rest, n = 62 * k + rest := ⟨n - 62 * k, by omega⟩
  have hle : 2 ^ (205 * k) ≤ tenTo (62 * k + rest) := by
    rw [tenTo_add]
    exact Nat.le_trans (two_pow_le_tenTo_mul k) (Nat.le_mul_of_pos_right _ (tenTo_pos rest))
  have hlog := (Nat.le_log2 (Nat.ne_of_gt (tenTo_pos _))).2 hle
  omega

theorem le_log2_mul {m n k : Nat} (hm : m ≠ 0) (hk : k ≠ 0) (h : n ≤ m.log2) :
    n ≤ (k * m).log2 := by
  rw [Nat.le_log2 (Nat.mul_ne_zero hk hm)]
  have hle : 2 ^ n ≤ m := (Nat.le_log2 hm).1 h
  exact Nat.le_trans hle (Nat.le_mul_of_pos_left _ (Nat.pos_of_ne_zero hk))

theorem le_log2_mul_denominator {m n : Nat} (hm : m ≠ 0) (h : n ≤ m.log2) :
    n + 1074 ≤ (m * denominator).log2 := by
  unfold denominator
  generalize 1074 = k
  rw [Nat.le_log2 (Nat.mul_ne_zero hm (Nat.ne_of_gt (pow_two_pos k))), Nat.pow_add]
  exact Nat.mul_le_mul_right _ ((Nat.le_log2 hm).1 h)

theorem two_mul_lt_pow (m : Nat) : 2 * (m * denominator) < 2 ^ (m.log2 + 2 + 1074) := by
  unfold denominator
  generalize 1074 = n
  have hlt : m * 2 < 2 ^ (m.log2 + 2) := by
    have hm : m < 2 ^ (m.log2 + 1) := Nat.lt_log2_self
    rw [Nat.pow_succ]
    omega
  rw [Nat.mul_comm, Nat.mul_right_comm, Nat.pow_add]
  exact Nat.mul_lt_mul_of_pos_right hlt (pow_two_pos n)

/-! ### Decimals -/

namespace Decimal

/-- The exponents that are decided without the power of ten are decided as with it. -/
theorem round_eq (d : Decimal) :
    d.round =
      roundRatio (d.coefficient * tenTo d.exponent.toNat) (tenTo (-d.exponent).toNat) := by
  unfold round
  split
  next hzero =>
    rw [hzero, Nat.zero_mul, roundRatio_eq_zero]
    rw [Nat.zero_mul]
    exact tenTo_pos _
  next hne =>
    split
    next hlarge =>
      have hden : tenTo (-d.exponent).toNat = 1 := by
        rw [Int.toNat_of_nonpos (by omega)]
        rfl
      have hten : tenTo d.exponent.toNat ≠ 0 := Nat.ne_of_gt (tenTo_pos _)
      have hlog : 1024 ≤ (d.coefficient * tenTo d.exponent.toNat).log2 :=
        le_log2_mul hten hne (log2_tenTo (by omega))
      rw [roundRatio_eq_infinity]
      rw [hden, Nat.div_one]
      exact le_log2_mul_denominator (Nat.mul_ne_zero hne hten) hlog
    next hsmall =>
      split
      next htiny =>
        have hnum : d.coefficient * tenTo d.exponent.toNat = d.coefficient := by
          rw [Int.toNat_of_nonpos (by omega)]
          exact Nat.mul_one _
        rw [hnum, roundRatio_eq_zero]
        calc 2 * (d.coefficient * denominator)
            < 2 ^ (d.coefficient.log2 + 2 + 1074) := two_mul_lt_pow _
          _ ≤ 2 ^ (3 * (-d.exponent).toNat) := Nat.pow_le_pow_right (by decide) (by omega)
          _ ≤ tenTo (-d.exponent).toNat := two_pow_le_tenTo _
      next => rfl

/-- A zero at the end of the coefficient counts as a power of ten. -/
theorem round_mul_ten (coefficient : Nat) (exponent : Int) :
    round ⟨coefficient * 10, exponent⟩ = round ⟨coefficient, exponent + 1⟩ := by
  rw [round_eq, round_eq]
  dsimp only
  by_cases hexp : 0 ≤ exponent
  · have hpos : (exponent + 1).toNat = exponent.toNat + 1 := by omega
    have hneg : (-(exponent + 1)).toNat = (-exponent).toNat := by omega
    rw [hpos, hneg, Nat.add_comm, tenTo_add, ← Nat.mul_assoc]
    rfl
  · have hpos : (exponent + 1).toNat = exponent.toNat := by omega
    have hneg : (-exponent).toNat = (-(exponent + 1)).toNat + 1 := by omega
    rw [hpos, hneg, tenTo_add, Nat.mul_right_comm]
    exact roundRatio_mul_right _ _ (by decide)

theorem round_mul_tenTo (coefficient n : Nat) (exponent : Int) :
    round ⟨coefficient * tenTo n, exponent⟩ = round ⟨coefficient, exponent + n⟩ := by
  induction n generalizing exponent with
  | zero =>
    show round ⟨coefficient * 1, exponent⟩ = round ⟨coefficient, exponent + 0⟩
    rw [Nat.mul_one, Int.add_zero]
  | succ n ih =>
    have hten : coefficient * tenTo (n + 1) = coefficient * tenTo n * 10 := by
      rw [tenTo_add, ← Nat.mul_assoc]
      rfl
    rw [hten, round_mul_ten, ih]
    congr 2
    omega

/-- Zeros at the end of the coefficient do not matter. -/
theorem round_normalize (coefficient : Nat) (exponent : Int) :
    (normalize coefficient exponent).round = round ⟨coefficient, exponent⟩ := by
  fun_induction normalize coefficient exponent with
  | case1 => simp [round]
  | case2 coefficient exponent hne hmod ih =>
    rw [ih, ← round_mul_ten]
    congr 2
    omega
  | case3 => rfl

end Decimal

theorem tenTo_eq_mul (n : Nat) : tenTo n = Nat.pow 2 n * Nat.pow 5 n :=
  Nat.mul_pow 2 5 n

/-- The exact value of a finite double rounds to it. -/
theorem round_exactDecimal {bits : Nat} (h : bits < infinityBits) :
    (exactDecimal bits).round = bits := by
  have hten : tenTo 1074 = denominator * Nat.pow 5 1074 := by
    unfold denominator
    generalize 1074 = n
    exact tenTo_eq_mul n
  have hpow : 0 < Nat.pow 5 1074 := by
    generalize 1074 = n
    exact Nat.pow_pos (by decide)
  rw [Decimal.round_eq]
  show roundRatio (numerator bits * Nat.pow 5 1074 * tenTo 0) (tenTo 1074) = bits
  rw [hten, show tenTo 0 = 1 from rfl, Nat.mul_one, roundRatio_mul_right _ _ hpow,
    roundRatio_numerator h]

/-- The shortest decimal of a finite double rounds to it. -/
theorem round_shortest {bits : Nat} (h : bits < infinityBits) : (shortest bits).round = bits := by
  have hnormal : ∀ d : Decimal, d.round = bits →
      (Decimal.normalize d.coefficient d.exponent).round = bits := by
    intro d hd
    rw [Decimal.round_normalize, hd]
  unfold shortest
  apply hnormal
  cases hfind : (candidates bits).find? fun d => d.round == bits with
  | none =>
    rw [Option.getD_none]
    exact round_exactDecimal h
  | some d =>
    have hd := List.find?_some hfind
    rw [Option.getD_some]
    simpa using hd

end LoxTree.Number
