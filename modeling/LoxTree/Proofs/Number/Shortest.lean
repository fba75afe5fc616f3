import LoxTree.Proofs.Number.Rounding
import Mathlib

/-!
# The shortest decimal of a double

Rounding is monotone, so that whatever lies between a double and a decimal that rounds to it rounds
to it as well. On a grid of decimals with so many digits, one of the two neighbours of a double lies
between it and every other decimal with that many digits; so it is enough to look at neighbours. On
the grid of seventeen digits they are so close that one of them rounds to the double in any case.
The search through the grids of 1, 2, …, 17 digits therefore ends with a decimal that has the fewest
digits of all, and since the nearer neighbour is tried first, none with as few digits is nearer.

* `roundRatio_mono` and `Decimal.round_mono`: rounding is monotone.
* `exists_gridNeighbour`: a neighbour lies between a double and a decimal with as many digits.
* `exists_gridNeighbour_seventeen`: seventeen digits are enough.
* `exists_first`: what a search finds comes before everything else that it could find.
* `shortest_isShortest`: the decimal that is found is a shortest one (`Decimal.IsShortest`).
-/

namespace LoxTree.Number

/-! ### Rounding is monotone -/

theorem roundDiv_mono {num num' : Nat} (h : num ≤ num') (den : Nat) :
    roundDiv num den ≤ roundDiv num' den := by
  have hquot : num / den ≤ num' / den := Nat.div_le_div_right h
  rcases Nat.lt_or_eq_of_le hquot with hlt | heq
  · calc roundDiv num den ≤ num / den + 1 := roundDiv_le_succ num den
      _ ≤ num' / den := hlt
      _ ≤ roundDiv num' den := div_le_roundDiv num' den
  · -- above the same whole number the remainder decides
    have hmod : num % den ≤ num' % den := by
      have hnum := Nat.div_add_mod num den
      have hnum' := Nat.div_add_mod num' den
      rw [heq] at hnum
      omega
    unfold roundDiv
    rw [heq]
    dsimp only
    split_ifs <;> omega

theorem roundDiv_le_two_mul_leadingBit {num den place : Nat}
    (h : (num / den).log2 ≤ 52 + place) :
    roundDiv num (den * Nat.pow 2 place) ≤ 2 * leadingBit := by
  have hlt : num / den < 2 ^ (53 + place) := by
    calc num / den < 2 ^ ((num / den).log2 + 1) := Nat.lt_log2_self
      _ ≤ 2 ^ (53 + place) := Nat.pow_le_pow_right (by decide) (by omega)
  have hquot : num / (den * Nat.pow 2 place) < 2 * leadingBit := by
    rw [← Nat.div_div_eq_div_mul, Nat.div_lt_iff_lt_mul (pow_two_pos place)]
    rwa [Nat.pow_add] at hlt
  exact Nat.le_trans (roundDiv_le_succ _ _) hquot

theorem roundRatio_mono_left {num num' : Nat} (h : num ≤ num') (den : Nat) :
    roundRatio num den ≤ roundRatio num' den := by
  have hscaled : num * denominator ≤ num' * denominator := Nat.mul_le_mul_right _ h
  have hlog : (num * denominator / den).log2 ≤ (num' * denominator / den).log2 := by
    rw [Nat.log2_eq_log_two, Nat.log2_eq_log_two]
    exact Nat.log_mono_right (Nat.div_le_div_right hscaled)
  unfold roundRatio
  dsimp only
  apply min_le_min_right
  generalize hplace : (num * denominator / den).log2 - 52 = place
  generalize hplace' : (num' * denominator / den).log2 - 52 = place'
  rcases Nat.lt_or_eq_of_le (show place ≤ place' by omega) with hlt | rfl
  · -- the larger fraction is rounded at a higher place
    have hne : num' * denominator / den ≠ 0 := by
      intro hzero
      rw [hzero, Nat.log2_zero] at hplace'
      omega
    have hupper := roundDiv_le_two_mul_leadingBit
      (show (num * denominator / den).log2 ≤ 52 + place by omega)
    have hlower := leadingBit_le_roundDiv
      (show 52 + place' ≤ (num' * denominator / den).log2 by omega) hne
    unfold leadingBit at *
    omega
  · have hround := roundDiv_mono hscaled (den * Nat.pow 2 place)
    omega

/-- A larger fraction does not round to a smaller magnitude. -/
theorem roundRatio_mono {num den num' den' : Nat} (hden : 0 < den) (hden' : 0 < den')
    (h : (num : ℚ) / den ≤ (num' : ℚ) / den') : roundRatio num den ≤ roundRatio num' den' := by
  have hcross : num * den' ≤ num' * den := by
    rw [div_le_div_iff₀ (by exact_mod_cast hden) (by exact_mod_cast hden')] at h
    exact_mod_cast h
  have hle := roundRatio_mono_left hcross (den * den')
  rwa [roundRatio_mul_right num den hden', Nat.mul_comm den den',
    roundRatio_mul_right num' den' hden] at hle

/-! ### The values of decimals -/

/-- A power of ten as a fraction. -/
theorem zpow_eq_div (n : Int) :
    (10 : ℚ) ^ n = ((tenTo n.toNat : Nat) : ℚ) / (tenTo (-n).toNat : Nat) := by
  have hten : ∀ k : Nat, ((tenTo k : Nat) : ℚ) = 10 ^ k := by
    intro k
    simp [tenTo]
  rw [hten, hten]
  rcases Int.le_total 0 n with hn | hn
  · obtain ⟨k, rfl⟩ := Int.eq_ofNat_of_zero_le hn
    simp
  · obtain ⟨k, hk⟩ := Int.eq_ofNat_of_zero_le (Int.neg_nonneg.2 hn)
    obtain rfl : n = -k := by omega
    simp

namespace Decimal

/-- The value of a decimal. -/
def value (d : Decimal) : ℚ :=
  d.coefficient * (10 : ℚ) ^ d.exponent

theorem value_eq_div (d : Decimal) :
    d.value = ((d.coefficient * tenTo d.exponent.toNat : Nat) : ℚ) /
      (tenTo (-d.exponent).toNat : Nat) := by
  unfold value
  rw [zpow_eq_div, Nat.cast_mul, mul_div_assoc]

section

variable (num : Nat) {den : Nat} (hden : 0 < den) {c : Nat} {e : Int}

include hden

theorem value_le_div_iff :
    value ⟨c, e⟩ ≤ (num : ℚ) / den ↔ c * (den * tenTo e.toNat) ≤ num * tenTo (-e).toNat := by
  have hpos : (0 : ℚ) < den := by exact_mod_cast hden
  have hpos' : (0 : ℚ) < (tenTo (-e).toNat : Nat) := by exact_mod_cast tenTo_pos _
  rw [value_eq_div, div_le_div_iff₀ hpos' hpos, Nat.mul_comm den, ← Nat.mul_assoc]
  exact_mod_cast Iff.rfl

theorem div_le_value_iff :
    (num : ℚ) / den ≤ value ⟨c, e⟩ ↔ num * tenTo (-e).toNat ≤ c * (den * tenTo e.toNat) := by
  have hpos : (0 : ℚ) < den := by exact_mod_cast hden
  have hpos' : (0 : ℚ) < (tenTo (-e).toNat : Nat) := by exact_mod_cast tenTo_pos _
  rw [value_eq_div, div_le_div_iff₀ hpos hpos', Nat.mul_comm den, ← Nat.mul_assoc]
  exact_mod_cast Iff.rfl

theorem div_lt_value_iff :
    (num : ℚ) / den < value ⟨c, e⟩ ↔ num * tenTo (-e).toNat < c * (den * tenTo e.toNat) := by
  rw [← not_le, value_le_div_iff num hden, not_le]

end

theorem roundRatio_le_round {num den : Nat} (hden : 0 < den) {d : Decimal}
    (h : (num : ℚ) / den ≤ d.value) : roundRatio num den ≤ d.round := by
  rw [value_eq_div] at h
  rw [round_eq]
  exact roundRatio_mono hden (tenTo_pos _) h

theorem round_le_roundRatio {num den : Nat} (hden : 0 < den) {d : Decimal}
    (h : d.value ≤ (num : ℚ) / den) : d.round ≤ roundRatio num den := by
  rw [value_eq_div] at h
  rw [round_eq]
  exact roundRatio_mono (tenTo_pos _) hden h

/-- A larger decimal does not round to a smaller magnitude. -/
theorem round_mono {d d' : Decimal} (h : d.value ≤ d'.value) : d.round ≤ d'.round := by
  rw [value_eq_div d'] at h
  rw [round_eq d']
  exact round_le_roundRatio (tenTo_pos _) h

section

variable {c c' : Nat} {e : Int}

theorem value_le_value_iff : value ⟨c, e⟩ ≤ value ⟨c', e⟩ ↔ c ≤ c' := by
  have hpos : (0 : ℚ) < 10 ^ e := by positivity
  unfold value
  rw [mul_le_mul_iff_left₀ hpos]
  exact Nat.cast_le

theorem value_lt_value_iff : value ⟨c, e⟩ < value ⟨c', e⟩ ↔ c < c' := by
  rw [← not_le, ← not_le, value_le_value_iff]

end

/-- A power of ten on a finer grid. -/
theorem value_pow (n : Nat) (e : Int) : value ⟨10 ^ n, e⟩ = (10 : ℚ) ^ (n + e) := by
  unfold value
  rw [zpow_add₀ (by norm_num)]
  push_cast
  rfl

end Decimal

/-- What lies between a double and a decimal that rounds to it rounds to it. -/
theorem round_eq_of_between {bits : Nat} (hbits : bits < infinityBits) {d u : Decimal}
    (hd : d.round = bits)
    (hu : u.value ∈ Set.uIcc d.value ((numerator bits : ℚ) / denominator)) : u.round = bits := by
  have hexact := roundRatio_numerator hbits
  rcases Set.mem_uIcc.1 hu with ⟨hlow, hhigh⟩ | ⟨hlow, hhigh⟩
  · have hge := Decimal.round_mono hlow
    have hle := Decimal.round_le_roundRatio denominator_pos hhigh
    omega
  · have hge := Decimal.roundRatio_le_round denominator_pos hlow
    have hle := Decimal.round_mono hhigh
    omega

/-! ### Digits -/

theorem digitCount_pos (n : Nat) : 0 < digitCount n :=
  Nat.length_toDigits_pos

theorem digitCount_le_iff {n k : Nat} (hk : 0 < k) : digitCount n ≤ k ↔ n < 10 ^ k :=
  Nat.length_toDigits_le_iff (by decide) hk

/-- A positive number lies between two powers of ten, the smaller with as many digits as it. -/
theorem zpow_digitCount {n : Nat} (hn : 0 < n) :
    (10 : ℚ) ^ ((digitCount n : Int) - 1) ≤ n ∧ (n : ℚ) < (10 : ℚ) ^ (digitCount n : Int) := by
  have hpos := digitCount_pos n
  obtain ⟨k, hk⟩ : ∃ k, digitCount n = k + 1 := ⟨digitCount n - 1, by omega⟩
  have hhigh : n < 10 ^ (k + 1) := (digitCount_le_iff (Nat.succ_pos k)).1 hk.le
  have hlow : 10 ^ k ≤ n := by
    rcases Nat.eq_zero_or_pos k with rfl | hk0
    · exact hn
    · have hnot := (digitCount_le_iff (n := n) hk0).not.1 (by omega)
      omega
  rw [hk, Nat.cast_succ, add_sub_cancel_right]
  constructor
  · exact_mod_cast hlow
  · exact_mod_cast hhigh

/-- A decimal lies between the powers of ten around its leading digit. -/
theorem Decimal.zpow_leading {d : Decimal} (hd : 0 < d.coefficient) :
    (10 : ℚ) ^ (d.exponent + digitCount d.coefficient - 1) ≤ d.value ∧
      d.value < (10 : ℚ) ^ (d.exponent + digitCount d.coefficient) := by
  obtain ⟨hlow, hhigh⟩ := zpow_digitCount hd
  have hpos : (0 : ℚ) < 10 ^ d.exponent := by positivity
  unfold value
  constructor
  · rw [add_sub_assoc, zpow_add₀ (by norm_num), mul_comm]
    gcongr
  · rw [zpow_add₀ (by norm_num), mul_comm]
    gcongr

/-- Without zeros at its end, not even a power of ten has more digits than the numbers below it. -/
theorem digitCount_normalize_le {coefficient n : Nat} (hn : 0 < n) (h : coefficient ≤ 10 ^ n)
    (exponent : Int) : digitCount (Decimal.normalize coefficient exponent).coefficient ≤ n := by
  fun_induction Decimal.normalize coefficient exponent with
  | case1 => exact hn
  | case2 c e _ _ ih => exact ih (by omega)
  | case3 c e _ hlast =>
    rw [digitCount_le_iff hn]
    refine Nat.lt_of_le_of_ne h ?_
    rintro rfl
    obtain ⟨k, rfl⟩ := Nat.exists_eq_add_of_lt hn
    exact hlast (by simp [pow_succ])

/-- The place of the point of a fraction is that of the powers of ten around it. -/
theorem zpow_pointPlace {num den : Nat} (hnum : 0 < num) (hden : 0 < den) :
    (10 : ℚ) ^ (pointPlace num den - 1) ≤ (num : ℚ) / den ∧
      (num : ℚ) / den < (10 : ℚ) ^ (pointPlace num den) := by
  obtain ⟨hnumLow, hnumHigh⟩ := zpow_digitCount hnum
  obtain ⟨hdenLow, hdenHigh⟩ := zpow_digitCount hden
  have hpos : (0 : ℚ) < den := by exact_mod_cast hden
  unfold pointPlace
  generalize (digitCount num : Int) = i at *
  generalize (digitCount den : Int) = j at *
  have hcond := Decimal.div_lt_value_iff num hden (c := 1) (e := i - j)
  have hone : (Decimal.mk 1 (i - j)).value = (10 : ℚ) ^ (i - j) := by
    simp [Decimal.value]
  rw [hone, one_mul] at hcond
  dsimp only
  split
  next hlt =>
    refine ⟨?_, hcond.2 hlt⟩
    have hpow : (10 : ℚ) ^ (i - j - 1) * 10 ^ j = 10 ^ (i - 1) := by
      rw [← zpow_add₀ (by norm_num)]
      congr 1
      omega
    rw [le_div_iff₀ hpos]
    calc (10 : ℚ) ^ (i - j - 1) * den ≤ 10 ^ (i - j - 1) * 10 ^ j := by gcongr
      _ = 10 ^ (i - 1) := hpow
      _ ≤ num := hnumLow
  next hnot =>
    rw [add_sub_cancel_right]
    refine ⟨not_lt.1 (hcond.not.2 hnot), ?_⟩
    have hpow : (10 : ℚ) ^ (i - j + 1) * 10 ^ (j - 1) = 10 ^ i := by
      rw [← zpow_add₀ (by norm_num)]
      congr 1
      omega
    rw [div_lt_iff₀ hpos]
    calc (num : ℚ) < 10 ^ i := hnumHigh
      _ = 10 ^ (i - j + 1) * 10 ^ (j - 1) := hpow.symm
      _ ≤ 10 ^ (i - j + 1) * den := by gcongr

/-! ### Neighbours on a grid -/

/-- The whole number of steps of a grid up to a fraction. -/
def gridSteps (num den : Nat) (exponent : Int) : Nat :=
  num * tenTo (-exponent).toNat / (den * tenTo exponent.toNat)

/-- A fraction lies between its two neighbours. -/
theorem value_gridSteps (num : Nat) {den : Nat} (hden : 0 < den) (exponent : Int) :
    (Decimal.mk (gridSteps num den exponent) exponent).value ≤ (num : ℚ) / den ∧
      (num : ℚ) / den < (Decimal.mk (gridSteps num den exponent + 1) exponent).value := by
  have hstep : 0 < den * tenTo exponent.toNat := Nat.mul_pos hden (tenTo_pos _)
  rw [Decimal.value_le_div_iff num hden, Decimal.div_lt_value_iff num hden]
  constructor
  · exact Nat.div_mul_le_self _ _
  · rw [Nat.mul_comm (_ + 1)]
    exact Nat.lt_mul_div_succ _ hstep

/-- The neighbours come in the order of the sides on which rounding goes from the middle between
them. -/
theorem gridNeighbours_eq_or (num : Nat) {den : Nat} (hden : 0 < den) (exponent : Int)
    {below above : Decimal} (hbelow : below = ⟨gridSteps num den exponent, exponent⟩)
    (habove : above = ⟨gridSteps num den exponent + 1, exponent⟩) :
    gridNeighbours num den exponent = [below, above] ∧
        2 * ((num : ℚ) / den) ≤ below.value + above.value ∨
      gridNeighbours num den exponent = [above, below] ∧
        below.value + above.value ≤ 2 * ((num : ℚ) / den) := by
  have hdouble : 2 * ((num : ℚ) / den) = ((2 * num : Nat) : ℚ) / den := by
    push_cast
    ring
  have hmiddle : below.value + above.value =
      (Decimal.mk (2 * gridSteps num den exponent + 1) exponent).value := by
    rw [hbelow, habove]
    unfold Decimal.value
    push_cast
    ring
  rw [hdouble, hmiddle, Decimal.div_le_value_iff _ hden, Decimal.value_le_div_iff _ hden,
    Nat.mul_assoc, hbelow, habove]
  unfold gridNeighbours gridSteps
  dsimp only
  rcases roundDiv_eq_or (num * tenTo (-exponent).toNat) (den * tenTo exponent.toNat) with
    ⟨hround, hside⟩ | ⟨hround, hside⟩
  · left
    rw [hround]
    simpa using hside
  · right
    rw [hround]
    simpa using hside

theorem mem_gridNeighbours_iff {num den : Nat} (hden : 0 < den) {exponent : Int} {u : Decimal} :
    u ∈ gridNeighbours num den exponent ↔
      u = ⟨gridSteps num den exponent, exponent⟩ ∨
        u = ⟨gridSteps num den exponent + 1, exponent⟩ := by
  rcases gridNeighbours_eq_or num hden exponent rfl rfl with ⟨heq, -⟩ | ⟨heq, -⟩
  · simp [heq]
  · simp [heq, or_comm]

/-- The neighbour that is tried first is the nearer one. -/
theorem pairwise_gridNeighbours (num : Nat) {den : Nat} (hden : 0 < den) (exponent : Int) :
    (gridNeighbours num den exponent).Pairwise fun u u' =>
      |u.value - (num : ℚ) / den| ≤ |u'.value - (num : ℚ) / den| := by
  obtain ⟨hbelow, habove⟩ := value_gridSteps num hden exponent
  have hleft := abs_of_nonpos (sub_nonpos.2 hbelow)
  have hright := abs_of_pos (sub_pos.2 habove)
  rcases gridNeighbours_eq_or num hden exponent rfl rfl with ⟨heq, hside⟩ | ⟨heq, hside⟩
  · rw [heq, List.pairwise_pair, hleft, hright]
    linarith
  · rw [heq, List.pairwise_pair, hleft, hright]
    linarith

section

variable {num den : Nat} (hnum : 0 < num) (hden : 0 < den)

include hnum hden

/-- On the grid of so many digits, the number of steps up to a fraction has that many digits. -/
theorem gridSteps_bounds (n : Nat) :
    10 ^ n ≤ gridSteps num den (pointPlace num den - (n + 1 : Nat)) ∧
      gridSteps num den (pointPlace num den - (n + 1 : Nat)) < 10 ^ (n + 1) := by
  obtain ⟨hlow, hhigh⟩ := zpow_pointPlace hnum hden
  obtain ⟨hbelow, habove⟩ := value_gridSteps num hden (pointPlace num den - (n + 1 : Nat))
  generalize pointPlace num den = k at *
  generalize gridSteps num den (k - (n + 1 : Nat)) = steps at *
  have hlowPow : (Decimal.mk (10 ^ n) (k - (n + 1 : Nat))).value = (10 : ℚ) ^ (k - 1) := by
    rw [Decimal.value_pow]
    congr 1
    omega
  have hhighPow : (Decimal.mk (10 ^ (n + 1)) (k - (n + 1 : Nat))).value = (10 : ℚ) ^ k := by
    rw [Decimal.value_pow]
    congr 1
    omega
  rw [← hlowPow] at hlow
  rw [← hhighPow] at hhigh
  constructor
  · exact Nat.le_of_lt_succ (Decimal.value_lt_value_iff.1 (hlow.trans_lt habove))
  · exact Decimal.value_lt_value_iff.1 (hbelow.trans_lt hhigh)

variable {d : Decimal} (hd : 0 < d.coefficient)

include hd

/-- A decimal is not strictly between a fraction's neighbours on the grid of as many digits. -/
theorem value_le_or_le_value {e : Int} (he : e = pointPlace num den - digitCount d.coefficient) :
    d.value ≤ (Decimal.mk (gridSteps num den e) e).value ∨
      (Decimal.mk (gridSteps num den e + 1) e).value ≤ d.value := by
  have hten : (1 : ℚ) ≤ 10 := by norm_num
  obtain ⟨hlow, hhigh⟩ := Decimal.zpow_leading hd
  have hcount := digitCount_pos d.coefficient
  obtain ⟨n, hn⟩ : ∃ n, digitCount d.coefficient = n + 1 :=
    ⟨digitCount d.coefficient - 1, by omega⟩
  obtain ⟨hsteps, hsteps'⟩ := gridSteps_bounds hnum hden n
  rw [hn] at hlow hhigh he
  rw [← he] at hsteps hsteps'
  -- by its exponent the decimal is below the grid, on it or above it
  rcases lt_trichotomy d.exponent e with hlt | heq | hgt
  · left
    calc d.value ≤ (10 : ℚ) ^ (d.exponent + (n + 1 : Nat)) := hhigh.le
      _ ≤ (10 : ℚ) ^ (n + e) := zpow_le_zpow_right₀ hten (by omega)
      _ = (Decimal.mk (10 ^ n) e).value := (Decimal.value_pow n e).symm
      _ ≤ (Decimal.mk (gridSteps num den e) e).value := Decimal.value_le_value_iff.2 hsteps
  · obtain ⟨c, q⟩ := d
    obtain rfl : q = e := heq
    rw [Decimal.value_le_value_iff, Decimal.value_le_value_iff]
    omega
  · right
    calc (Decimal.mk (gridSteps num den e + 1) e).value
        ≤ (Decimal.mk (10 ^ (n + 1)) e).value := Decimal.value_le_value_iff.2 hsteps'
      _ = (10 : ℚ) ^ ((n + 1 : Nat) + e) := Decimal.value_pow (n + 1) e
      _ ≤ (10 : ℚ) ^ (d.exponent + (n + 1 : Nat) - 1) := zpow_le_zpow_right₀ hten (by omega)
      _ ≤ d.value := hlow

/-- A neighbour of a fraction on the grid of as many digits lies between it and a decimal. -/
theorem exists_gridNeighbour :
    ∃ u ∈ gridNeighbours num den (pointPlace num den - digitCount d.coefficient),
      u.value ∈ Set.uIcc d.value ((num : ℚ) / den) := by
  obtain ⟨hbelow, habove⟩ :=
    value_gridSteps num hden (pointPlace num den - digitCount d.coefficient)
  rcases value_le_or_le_value hnum hden hd rfl with hside | hside
  · exact ⟨_, (mem_gridNeighbours_iff hden).2 (.inl rfl), Set.mem_uIcc.2 (.inl ⟨hside, hbelow⟩)⟩
  · exact ⟨_, (mem_gridNeighbours_iff hden).2 (.inr rfl), Set.mem_uIcc.2 (.inr ⟨habove.le, hside⟩)⟩

end

/-! ### Seventeen digits -/

/-- A quotient that is less than a half above a whole number rounds to it. -/
theorem roundDiv_mul_add {q r den : Nat} (h : 2 * r < den) : roundDiv (q * den + r) den = q := by
  have hr : r < den := by omega
  have hdiv : (q * den + r) / den = q := by
    rw [Nat.mul_comm, Nat.mul_add_div (by omega), Nat.div_eq_of_lt hr, Nat.add_zero]
  have hmod : (q * den + r) % den = r := by
    rw [Nat.mul_comm, Nat.mul_add_mod, Nat.mod_eq_of_lt hr]
  unfold roundDiv
  rw [hdiv, hmod]
  exact if_pos h

/-- A quotient that is less than a half below a whole number rounds to it. -/
theorem roundDiv_mul_sub {q r den : Nat} (h : 2 * r < den) (hr : 0 < r) :
    roundDiv ((q + 1) * den - r) den = q + 1 := by
  have hlt : den - r < den := by omega
  have hsub : (q + 1) * den - r = den * q + (den - r) := by
    rw [Nat.add_mul, Nat.one_mul, Nat.mul_comm q]
    omega
  have hdiv : (den * q + (den - r)) / den = q := by
    rw [Nat.mul_add_div (by omega), Nat.div_eq_of_lt hlt, Nat.add_zero]
  have hmod : (den * q + (den - r)) % den = den - r := by
    rw [Nat.mul_add_mod, Nat.mod_eq_of_lt hlt]
  unfold roundDiv
  rw [hsub, hdiv, hmod]
  dsimp only
  rw [if_neg (by omega), if_pos (by omega)]

section

variable {bits k : Nat} (hbits : bits < infinityBits) (hk : 2 ^ 54 < k)

include hbits hk

/-- A fraction that is larger than a double by a small part of it rounds to it. -/
theorem roundRatio_numerator_add :
    roundRatio (numerator bits * (k + 1)) (denominator * k) = bits := by
  have hlt := significand_lt bits
  have hscale := scale_eq_zero_or bits
  have hself := scale_significand bits
  unfold numerator
  generalize significand bits = m at *
  generalize scale bits = place at *
  have hnum : m * Nat.pow 2 place * (k + 1) = (m * k + m) * Nat.pow 2 place := by ring
  have hhigh : m * k + m < 2 ^ 53 * k := by nlinarith
  have hlow : place = 0 ∨ 2 ^ 52 * k ≤ m * k + m :=
    hscale.imp_right fun h => Nat.le_add_right_of_le (Nat.mul_le_mul_right k h)
  rw [hnum, roundRatio_at_place (by omega) hhigh hlow, roundDiv_mul_add (by omega), hself,
    min_eq_left hbits.le]

theorem roundRatio_sub_at_place {m place : Nat} (hpos : 0 < m) (hm : m ≤ 2 ^ 53)
    (hlow : place = 0 ∨ 2 ^ 52 < m) (hself : place * leadingBit + m = bits) :
    roundRatio (m * Nat.pow 2 place * (k - 1)) (denominator * k) = bits := by
  obtain ⟨n, rfl⟩ : ∃ n, m = n + 1 := ⟨m - 1, by omega⟩
  have hnum : (n + 1) * Nat.pow 2 place * (k - 1) =
      ((n + 1) * k - (n + 1)) * Nat.pow 2 place := by
    rw [Nat.mul_right_comm, Nat.mul_sub_one]
  have hhigh : (n + 1) * k - (n + 1) < 2 ^ 53 * k := by
    have hle : (n + 1) * k ≤ 2 ^ 53 * k := Nat.mul_le_mul_right k hm
    omega
  have hlow : place = 0 ∨ 2 ^ 52 * k ≤ (n + 1) * k - (n + 1) := by
    refine hlow.imp_right fun h => ?_
    have hle : (2 ^ 52 + 1) * k ≤ (n + 1) * k := Nat.mul_le_mul_right k h
    omega
  rw [hnum, roundRatio_at_place (by omega) hhigh hlow, roundDiv_mul_sub (by omega) (by omega),
    hself, min_eq_left hbits.le]

/-- A fraction that is smaller than a double by a small part of it rounds to it. -/
theorem roundRatio_numerator_sub (hpos : 0 < bits) :
    roundRatio (numerator bits * (k - 1)) (denominator * k) = bits := by
  have hlt := significand_lt bits
  have hscale := scale_eq_zero_or bits
  have hself := scale_significand bits
  unfold numerator
  generalize significand bits = m at *
  generalize scale bits = place at *
  by_cases hedge : place = 0 ∨ 2 ^ 52 < m
  · have hm : 0 < m := by
      rcases hedge with rfl | hlarge <;> omega
    exact roundRatio_sub_at_place hbits hk hm hlt.le hedge hself
  · -- below a power of two the doubles are closer together
    obtain ⟨below, rfl⟩ : ∃ below, place = below + 1 := ⟨place - 1, by omega⟩
    have hm : m = 2 ^ 52 := by omega
    have hnum : m * Nat.pow 2 (below + 1) = 2 * m * Nat.pow 2 below := by
      rw [Nat.pow_eq, Nat.pow_eq, Nat.pow_succ]
      ring
    have hpos' : 0 < 2 * m := by omega
    have hle : 2 * m ≤ 2 ^ 53 := by omega
    have hedge' : 2 ^ 52 < 2 * m := by omega
    have hself' : below * leadingBit + 2 * m = bits := by
      have hbit : leadingBit = m := hm.symm
      rw [hbit, Nat.add_mul] at hself
      rw [hbit]
      omega
    rw [hnum]
    exact roundRatio_sub_at_place hbits hk hpos' hle (.inr hedge') hself'

/-- A decimal that differs from a double by a small part of it rounds to it. -/
theorem round_eq_of_near (hpos : 0 < bits) {u : Decimal}
    (h : |u.value - (numerator bits : ℚ) / denominator| * k ≤ (numerator bits : ℚ) / denominator) :
    u.round = bits := by
  have hkpos : (0 : ℚ) < k := by exact_mod_cast (show 0 < k by omega)
  have hden : 0 < denominator * k := Nat.mul_pos denominator_pos (by omega)
  have hvalue : ∀ j : Nat, ((numerator bits * j : Nat) : ℚ) / ((denominator * k : Nat) : ℚ) =
      (numerator bits : ℚ) / denominator * j / k := by
    intro j
    rw [Nat.cast_mul, Nat.cast_mul, mul_div_mul_comm, mul_div_assoc]
  have hbelow : ((numerator bits * (k - 1) : Nat) : ℚ) / ((denominator * k : Nat) : ℚ) ≤ u.value →
      bits ≤ u.round := by
    intro hle
    have hround := Decimal.roundRatio_le_round hden hle
    rwa [roundRatio_numerator_sub hbits hk hpos] at hround
  have habove : u.value ≤ ((numerator bits * (k + 1) : Nat) : ℚ) / ((denominator * k : Nat) : ℚ) →
      u.round ≤ bits := by
    intro hle
    have hround := Decimal.round_le_roundRatio hden hle
    rwa [roundRatio_numerator_add hbits hk] at hround
  rw [hvalue, div_le_iff₀ hkpos, Nat.cast_pred (by omega)] at hbelow
  rw [hvalue, le_div_iff₀ hkpos, Nat.cast_succ] at habove
  rw [← abs_of_pos hkpos, ← abs_mul, abs_le] at h
  generalize (numerator bits : ℚ) / denominator = v at *
  apply Nat.le_antisymm
  · exact habove (by linarith)
  · exact hbelow (by linarith)

end

theorem numerator_pos {bits : Nat} (hpos : 0 < bits) : 0 < numerator bits := by
  refine Nat.mul_pos ?_ (pow_two_pos _)
  unfold significand leadingBit
  split <;> omega

/-- One of the neighbours of a double on the grid of seventeen digits rounds to it. -/
theorem exists_gridNeighbour_seventeen {bits : Nat} (hbits : bits < infinityBits)
    (hpos : 0 < bits) :
    ∃ u ∈ gridNeighbours (numerator bits) denominator
      (pointPlace (numerator bits) denominator - (17 : Nat)), u.round = bits := by
  have hnum := numerator_pos hpos
  obtain ⟨hplace, -⟩ := zpow_pointPlace hnum denominator_pos
  have hnear : ∀ u : Decimal, |u.value - (numerator bits : ℚ) / denominator| * (2 * 10 ^ 16) ≤
      (numerator bits : ℚ) / denominator → u.round = bits := by
    intro u h
    have hk : 2 ^ 54 < 2 * 10 ^ 16 := by norm_num
    refine round_eq_of_near hbits hk hpos ?_
    rw [Nat.cast_mul, Nat.cast_pow]
    exact h
  generalize pointPlace (numerator bits) denominator = k at *
  obtain ⟨e, rfl⟩ : ∃ e, k = e + 17 := ⟨k - 17, by ring⟩
  have hexponent : e + 17 - (17 : Nat) = e := by simp
  have hpow : (10 : ℚ) ^ (e + 17 - 1) = 10 ^ 16 * 10 ^ e := by
    rw [add_sub_assoc, zpow_add₀ (by norm_num), mul_comm]
    norm_num
  obtain ⟨hbelow, habove⟩ := value_gridSteps (numerator bits) denominator_pos e
  have hmem := @mem_gridNeighbours_iff (numerator bits) denominator denominator_pos e
  rw [hexponent]
  generalize gridSteps (numerator bits) denominator e = steps at *
  generalize (numerator bits : ℚ) / denominator = v at *
  -- a step is so small a part of the double that half a step makes no difference
  have hstep : (10 : ℚ) ^ 16 * 10 ^ e ≤ v := hpow ▸ hplace
  have hnext : (Decimal.mk (steps + 1) e).value = (Decimal.mk steps e).value + 10 ^ e := by
    unfold Decimal.value
    push_cast
    ring
  rcases le_total (v - (Decimal.mk steps e).value) (10 ^ e / 2) with hhalf | hhalf
  · refine ⟨_, hmem.2 (.inl rfl), hnear _ ?_⟩
    rw [abs_sub_comm, abs_of_nonneg (by linarith)]
    linarith
  · refine ⟨_, hmem.2 (.inr rfl), hnear _ ?_⟩
    rw [abs_of_nonneg (by linarith)]
    linarith

/-! ### The search -/

/-- The first neighbour of a magnitude on the grid of `i + 1` digits that rounds to it. -/
def searchGrid (bits i : Nat) : Option Decimal :=
  (gridNeighbours (numerator bits) denominator
    (pointPlace (numerator bits) denominator - (i + 1 : Nat))).find? fun d => d.round == bits

theorem find?_candidates (bits : Nat) :
    (candidates bits).find? (fun d => d.round == bits) =
      (List.range 17).findSome? (searchGrid bits) := by
  rw [candidates, List.find?_flatMap]
  rfl

/-- What is found first in a list comes before everything else that could be found. -/
theorem exists_first {α β : Type} {R : α → α → Prop} {l : List α} (hl : l.Pairwise R)
    {f : α → Option β} {b : β} (h : l.findSome? f = some b) :
    ∃ a, f a = some b ∧ ∀ a' ∈ l, (f a').isSome → a' = a ∨ R a a' := by
  obtain ⟨before, a, after, rfl, ha, hnone⟩ := List.findSome?_eq_some_iff.1 h
  refine ⟨a, ha, fun a' hmem hsome => ?_⟩
  rcases List.mem_append.1 hmem with hbefore | hmem
  · simp [hnone a' hbefore] at hsome
  · have hlater := (List.pairwise_cons.1 (List.pairwise_append.1 hl).2.1).1
    exact (List.mem_cons.1 hmem).imp_right (hlater a')

section

variable {bits : Nat} (hpos : 0 < bits)

include hpos

/-- What is found on a grid has no more digits than the grid, but for zeros at the end. -/
theorem coefficient_le_of_searchGrid {i : Nat} {u : Decimal} (h : searchGrid bits i = some u) :
    u.coefficient ≤ 10 ^ (i + 1) := by
  have hsteps := (gridSteps_bounds (numerator_pos hpos) denominator_pos i).2
  rcases (mem_gridNeighbours_iff denominator_pos).1 (List.mem_of_find?_eq_some h) with rfl | rfl
  · exact hsteps.le
  · exact hsteps

variable (hbits : bits < infinityBits) {d : Decimal} (hd : d.round = bits)

include hbits hd

/-- If a decimal rounds to a magnitude then so does a neighbour on the grid of as many digits, and
it is not farther away. -/
theorem exists_gridNeighbour_round :
    ∃ u ∈ gridNeighbours (numerator bits) denominator
        (pointPlace (numerator bits) denominator - digitCount d.coefficient),
      u.round = bits ∧ |u.value - (numerator bits : ℚ) / denominator| ≤
        |d.value - (numerator bits : ℚ) / denominator| := by
  have hcoefficient : 0 < d.coefficient := by
    refine Nat.pos_of_ne_zero fun hzero => ?_
    rw [Decimal.round, if_pos hzero] at hd
    omega
  obtain ⟨u, hu, hbetween⟩ :=
    exists_gridNeighbour (numerator_pos hpos) denominator_pos hcoefficient
  have hround := round_eq_of_between hbits hd hbetween
  rw [Set.uIcc_comm] at hbetween
  exact ⟨u, hu, hround, Set.abs_sub_left_of_mem_uIcc hbetween⟩

/-- Something is found on the grid of as many digits as a decimal that rounds to the magnitude, or
on that of seventeen. -/
theorem exists_searchGrid :
    ∃ i < 17, i + 1 ≤ digitCount d.coefficient ∧ (searchGrid bits i).isSome := by
  have hcount := digitCount_pos d.coefficient
  have hsearch : ∀ {i : Nat} {u : Decimal}, u ∈ gridNeighbours (numerator bits) denominator
      (pointPlace (numerator bits) denominator - (i + 1 : Nat)) → u.round = bits →
      (searchGrid bits i).isSome := by
    intro i u hu hround
    exact List.find?_isSome.2 ⟨u, hu, beq_iff_eq.2 hround⟩
  by_cases hmany : 17 ≤ digitCount d.coefficient
  · obtain ⟨u, hu, hround⟩ := exists_gridNeighbour_seventeen hbits hpos
    exact ⟨16, by decide, hmany, hsearch hu hround⟩
  · obtain ⟨u, hu, hround, -⟩ := exists_gridNeighbour_round hpos hbits hd
    obtain ⟨i, hi⟩ : ∃ i, digitCount d.coefficient = i + 1 :=
      ⟨digitCount d.coefficient - 1, by omega⟩
    rw [hi] at hu hmany ⊢
    exact ⟨i, by omega, Nat.le_refl _, hsearch hu hround⟩

/-- What is found on the grid of as many digits is not farther away than the decimal. -/
theorem abs_sub_le_of_searchGrid {u : Decimal} {i : Nat} (h : searchGrid bits i = some u)
    (hcount : digitCount d.coefficient = i + 1) :
    |u.value - (numerator bits : ℚ) / denominator| ≤
      |d.value - (numerator bits : ℚ) / denominator| := by
  obtain ⟨w, hw, hround, hle⟩ := exists_gridNeighbour_round hpos hbits hd
  rw [searchGrid, List.find?_eq_findSome?_guard] at h
  obtain ⟨a, ha, hfirst⟩ := exists_first (pairwise_gridNeighbours _ denominator_pos _) h
  obtain ⟨rfl, -⟩ := Option.guard_eq_some_iff.1 ha
  rw [hcount] at hw
  rcases hfirst w hw (by simpa using hround) with rfl | hnear
  · exact hle
  · exact hnear.trans hle

end

/-- The shortest decimal is what is found on the first grid on which anything is found, and no
decimal that rounds to the magnitude has fewer digits than that grid. -/
theorem exists_shortest {bits : Nat} (hpos : 0 < bits) (hbits : bits < infinityBits) :
    ∃ i u, searchGrid bits i = some u ∧
      shortest bits = Decimal.normalize u.coefficient u.exponent ∧
      ∀ d : Decimal, d.round = bits → i + 1 ≤ digitCount d.coefficient := by
  obtain ⟨i, hi, -, hsome⟩ := exists_searchGrid hpos hbits (round_shortest hbits)
  have hfind : ((List.range 17).findSome? (searchGrid bits)).isSome :=
    List.findSome?_isSome_iff.2 ⟨i, List.mem_range.2 hi, hsome⟩
  obtain ⟨u, hu⟩ := Option.isSome_iff_exists.1 hfind
  obtain ⟨j, hj, hfirst⟩ := exists_first List.pairwise_lt_range hu
  refine ⟨j, u, hj, ?_, fun d hd => ?_⟩
  · rw [shortest, find?_candidates, hu, Option.getD_some]
  · obtain ⟨k, hk, hcount, hfound⟩ := exists_searchGrid hpos hbits hd
    have hle := hfirst k (List.mem_range.2 hk) hfound
    omega

/-! ### Shortest decimals -/

/-- A decimal that rounds to a magnitude, with the fewest digits of all that do and not farther from
the magnitude's exact value than the others with as few digits. -/
structure Decimal.IsShortest (d : Decimal) (bits : Nat) : Prop where
  rounds : d.round = bits
  fewest : ∀ other : Decimal, other.round = bits →
    digitCount d.coefficient ≤ digitCount other.coefficient
  nearest : ∀ other : Decimal, other.round = bits →
    digitCount other.coefficient = digitCount d.coefficient →
    |d.value - (numerator bits : ℚ) / denominator| ≤
      |other.value - (numerator bits : ℚ) / denominator|

theorem Decimal.value_normalize (coefficient : Nat) (exponent : Int) :
    (normalize coefficient exponent).value = value ⟨coefficient, exponent⟩ := by
  fun_induction normalize coefficient exponent with
  | case1 => simp [value]
  | case2 c e _ hlast ih =>
    have hten : c = c / 10 * 10 := by omega
    rw [ih]
    unfold value
    dsimp only
    rw [zpow_add_one₀ (by norm_num)]
    nth_rewrite 2 [hten]
    push_cast
    ring
  | case3 => rfl

theorem shortest_zero : shortest 0 = ⟨0, 0⟩ := by
  have hfirst : (candidates 0).find? (fun d => d.round == 0) = some ⟨0, -324⟩ := by
    decide +kernel
  rw [shortest, hfirst]
  simp [Decimal.normalize]

/-- The search finds a shortest decimal of every finite double. -/
theorem shortest_isShortest {bits : Nat} (hbits : bits < infinityBits) :
    (shortest bits).IsShortest bits := by
  have hround := round_shortest hbits
  rcases Nat.eq_zero_or_pos bits with rfl | hpos
  · have hzero : |(shortest 0).value - (numerator 0 : ℚ) / denominator| = 0 := by
      have hnum : numerator 0 = 0 := by simp [numerator, significand]
      rw [shortest_zero, hnum, Nat.cast_zero, zero_div]
      simp [Decimal.value]
    refine ⟨hround, fun other _ => ?_, fun other _ _ => ?_⟩
    · rw [shortest_zero]
      exact digitCount_pos other.coefficient
    · rw [hzero]
      exact abs_nonneg _
  · obtain ⟨i, u, hu, hshortest, hfewest⟩ := exists_shortest hpos hbits
    have hcount : digitCount (shortest bits).coefficient ≤ i + 1 := by
      rw [hshortest]
      exact digitCount_normalize_le (Nat.succ_pos i) (coefficient_le_of_searchGrid hpos hu) _
    refine ⟨hround, fun other hother => hcount.trans (hfewest other hother), ?_⟩
    intro other hother hsame
    have hdigits : digitCount other.coefficient = i + 1 := by
      have hle := hfewest other hother
      omega
    rw [hshortest, Decimal.value_normalize]
    exact abs_sub_le_of_searchGrid hpos hbits hother hu hdigits

end LoxTree.Number
