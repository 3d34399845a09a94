import Mathlib.Algebra.Order.Field.Power
import Mathlib.Algebra.Order.Field.Rat
import Mathlib.Tactic.FieldSimp
import Mathlib.Tactic.Linarith
import Mathlib.Tactic.NormNum
import Mathlib.Tactic.Positivity
import Mathlib.Tactic.Ring
import RuleEngine.Proofs.Rounding

/-!
# Rounding more than once

Each rounding of a magnitude may change it by the factor `1 + 2 ^ -53`, up or down, and
what is computed in several steps is as many such factors away from what was meant.  In
return one factor moves no magnitude further than to the next rank: the steps of every run
are wider than that.  So a quotient that is `n` factors from another is rounded to a rank
at most `n` away from the rank of the other.

* `Near` — two magnitudes that `n` roundings may set apart;
* `near_rankOfRatio` — one rounding sets apart by one, where the ranks are not crowded
  to zero;
* `rankMidpoint_mul_lt` — one factor moves the midpoint behind a rank at most to the next;
* `Near.dist_le` — magnitudes that are near have ranks that are near.
-/

namespace RuleEngine

/-! ## Midpoints between ranks -/

/-- The magnitude of a rank. -/
def rankValue (rank : Nat) : ℚ := unitsOfRank rank / unitsInOne

/-- The midpoint between a rank and the next one. -/
def rankMidpoint (rank : Nat) : ℚ := (rankValue rank + rankValue (rank + 1)) / 2

/-- The factor by which one rounding may change a magnitude: `1 + 2 ^ -53`. -/
def roundingFactor : ℚ := (2 * runLength + 1) / (2 * runLength)

theorem roundingFactor_pos : 0 < roundingFactor := by
  norm_num [roundingFactor, runLength]

theorem unitsInOne_cast_pos : (0 : ℚ) < unitsInOne := by
  exact_mod_cast unitsInOne_pos

theorem rankValue_nonneg (rank : Nat) : 0 ≤ rankValue rank :=
  div_nonneg (Nat.cast_nonneg _) unitsInOne_cast_pos.le

theorem rankValue_zero : rankValue 0 = 0 := by
  rw [rankValue, unitsOfRank_zero, Nat.cast_zero, zero_div]

/-- A later rank is a greater magnitude. -/
theorem rankValue_strictMono : StrictMono rankValue := by
  intro a b h
  apply div_lt_div_of_pos_right _ unitsInOne_cast_pos
  exact_mod_cast unitsOfRank_strictMono h

/-- A step is not narrower than its end divided by `2 ^ 53`. -/
theorem unitsOfRank_step (rank : Nat) :
    2 * runLength * unitsOfRank rank + unitsOfRank (rank + 1) ≤
      2 * runLength * unitsOfRank (rank + 1) := by
  obtain ⟨shift, multiple, rfl, hlow, hhigh⟩ := exists_run rank
  have hnext : unitsOfRank (shift * runLength + multiple + 1) = (multiple + 1) * twoPow shift := by
    rw [Nat.add_assoc]
    exact unitsOfRank_run (by omega) hhigh
  have hmultiple : 2 * runLength * multiple + (multiple + 1) ≤ 2 * runLength * (multiple + 1) := by
    rw [Nat.mul_add_one]
    omega
  calc 2 * runLength * unitsOfRank (shift * runLength + multiple) +
        unitsOfRank (shift * runLength + multiple + 1)
      = (2 * runLength * multiple + (multiple + 1)) * twoPow shift := by
        rw [hnext, unitsOfRank_run hlow hhigh.le, Nat.add_mul (2 * runLength * multiple),
          Nat.mul_assoc (2 * runLength)]
    _ ≤ 2 * runLength * (multiple + 1) * twoPow shift := Nat.mul_le_mul_right _ hmultiple
    _ = 2 * runLength * unitsOfRank (shift * runLength + multiple + 1) := by
        rw [hnext, Nat.mul_assoc]

/-- The same of magnitudes: no step is narrower than its end divided by `2 ^ 53`. -/
theorem rankValue_step (rank : Nat) :
    2 * runLength * rankValue rank + rankValue (rank + 1) ≤
      2 * runLength * rankValue (rank + 1) := by
  have hstep : (2 * runLength * unitsOfRank rank + unitsOfRank (rank + 1) : ℚ) ≤
      2 * runLength * unitsOfRank (rank + 1) := by
    exact_mod_cast unitsOfRank_step rank
  have hdiv := div_le_div_of_nonneg_right hstep unitsInOne_cast_pos.le
  rwa [add_div, mul_div_assoc, mul_div_assoc] at hdiv

/-- **One factor moves a midpoint at most to the next.** -/
theorem rankMidpoint_mul_lt (rank : Nat) :
    rankMidpoint rank * roundingFactor < rankMidpoint (rank + 1) := by
  have hpos : (0 : ℚ) < 2 * runLength := by norm_num [runLength]
  have hstep := rankValue_step rank
  have hnext := rankValue_step (rank + 1)
  have hless := rankValue_strictMono (Nat.lt_succ_self rank)
  have hmore := rankValue_strictMono (Nat.lt_succ_self (rank + 1))
  rw [roundingFactor, mul_div_assoc', div_lt_iff₀ hpos, rankMidpoint, rankMidpoint]
  linarith

/-- As many factors move it at most as many ranks on. -/
theorem rankMidpoint_mul_pow_lt (rank n : Nat) :
    rankMidpoint rank * roundingFactor ^ (n + 1) < rankMidpoint (rank + (n + 1)) := by
  induction n with
  | zero => simpa using rankMidpoint_mul_lt rank
  | succ n ih =>
      calc rankMidpoint rank * roundingFactor ^ (n + 1 + 1)
          = rankMidpoint rank * roundingFactor ^ (n + 1) * roundingFactor := by
            rw [pow_succ, mul_assoc]
        _ < rankMidpoint (rank + (n + 1)) * roundingFactor :=
            mul_lt_mul_of_pos_right ih roundingFactor_pos
        _ < rankMidpoint (rank + (n + 1) + 1) := rankMidpoint_mul_lt _

/-! ## Quotients between midpoints -/

variable {num den : Nat}

/-- A ratio of numbers is the ratio of their units. -/
theorem div_mul_unitsInOne (num den : Nat) :
    (num : ℚ) / den = (num * unitsInOne : Nat) / (den * unitsInOne : Nat) := by
  have hne : (unitsInOne : ℚ) ≠ 0 := unitsInOne_cast_pos.ne'
  push_cast
  rw [mul_div_mul_right _ _ hne]

/-- A midpoint over any denominator. -/
theorem rankMidpoint_eq (rank : Nat) (hden : 0 < den) :
    rankMidpoint rank = ((unitsOfRank rank * den + unitsOfRank (rank + 1) * den : Nat) : ℚ) /
      (2 * (den * unitsInOne) : Nat) := by
  have hne : (den : ℚ) ≠ 0 := by exact_mod_cast hden.ne'
  have hunits : (unitsInOne : ℚ) ≠ 0 := unitsInOne_cast_pos.ne'
  rw [rankMidpoint, rankValue, rankValue]
  push_cast
  field_simp

/-- A quotient is not beyond the midpoint behind its rank. -/
theorem div_le_rankMidpoint (hden : 0 < den) :
    (num : ℚ) / den ≤ rankMidpoint (rankOfRatio num den) := by
  have hnearest := rankOfRatio_nearest num hden (rankOfRatio num den + 1)
  have hless := Nat.mul_lt_mul_of_pos_right (unitsOfRank_lt_succ (rankOfRatio num den)) hden
  have hpos : 0 < den * unitsInOne := Nat.mul_pos hden unitsInOne_pos
  have hunits : num * unitsInOne * 2 ≤ unitsOfRank (rankOfRatio num den) * den +
      unitsOfRank (rankOfRatio num den + 1) * den := by
    unfold Nat.dist at hnearest
    omega
  rw [rankMidpoint_eq _ hden, div_mul_unitsInOne,
    div_le_div_iff₀ (by exact_mod_cast hpos) (by exact_mod_cast (by omega))]
  have hmul := Nat.mul_le_mul_right (den * unitsInOne) hunits
  exact_mod_cast (by linarith)

/-- A quotient before the midpoint behind a rank is rounded to no later rank. -/
theorem rankOfRatio_le_of_lt (hden : 0 < den) {rank : Nat}
    (h : (num : ℚ) / den < rankMidpoint rank) : rankOfRatio num den ≤ rank := by
  have hpos : 0 < den * unitsInOne := Nat.mul_pos hden unitsInOne_pos
  rw [rankMidpoint_eq _ hden, div_mul_unitsInOne,
    div_lt_div_iff₀ (by exact_mod_cast hpos) (by exact_mod_cast (by omega))] at h
  have hmul : num * unitsInOne * 2 * (den * unitsInOne) <
      (unitsOfRank rank * den + unitsOfRank (rank + 1) * den) * (den * unitsInOne) := by
    have hcast : num * unitsInOne * (2 * (den * unitsInOne)) <
        (unitsOfRank rank * den + unitsOfRank (rank + 1) * den) * (den * unitsInOne) := by
      exact_mod_cast h
    linarith
  have hunits := Nat.lt_of_mul_lt_mul_right hmul
  have hnearest := rankOfRatio_nearest num hden rank
  by_contra hlater
  have hnext : rank + 1 ≤ rankOfRatio num den := Nat.lt_of_not_le hlater
  have hafter := unitsOfRank_mul_mono den hnext
  have hless := Nat.mul_lt_mul_of_pos_right (unitsOfRank_lt_succ rank) hden
  unfold Nat.dist at hnearest
  omega

/-! ## Near magnitudes -/

/-- Two magnitudes that `n` roundings may set apart. -/
structure Near (n : Nat) (x y : ℚ) : Prop where
  le : x ≤ y * roundingFactor ^ n
  ge : y ≤ x * roundingFactor ^ n

namespace Near

variable {m n : Nat} {x y x' y' : ℚ}

/-- Quotients are near when their cross products are. -/
theorem of_nat {a b c d : Nat} (hb : 0 < b) (hd : 0 < d)
    (hle : (2 * runLength) ^ n * (a * d) ≤ (2 * runLength + 1) ^ n * (c * b))
    (hge : (2 * runLength) ^ n * (c * b) ≤ (2 * runLength + 1) ^ n * (a * d)) :
    Near n ((a : ℚ) / b) ((c : ℚ) / d) := by
  have hb' : (0 : ℚ) < b := by exact_mod_cast hb
  have hd' : (0 : ℚ) < d := by exact_mod_cast hd
  have hrun : (0 : ℚ) < (2 * runLength) ^ n := pow_pos (by norm_num [runLength]) n
  have hle' : ((2 * runLength) ^ n * (a * d) : ℚ) ≤ (2 * runLength + 1) ^ n * (c * b) := by
    exact_mod_cast hle
  have hge' : ((2 * runLength) ^ n * (c * b) : ℚ) ≤ (2 * runLength + 1) ^ n * (a * d) := by
    exact_mod_cast hge
  constructor
  · rw [roundingFactor, div_pow, div_mul_div_comm, div_le_div_iff₀ hb' (mul_pos hd' hrun)]
    linarith
  · rw [roundingFactor, div_pow, div_mul_div_comm, div_le_div_iff₀ hd' (mul_pos hb' hrun)]
    linarith

theorem refl (x : ℚ) : Near 0 x x := by
  constructor <;> simp

/-- Nearness goes both ways. -/
theorem symm (h : Near n x y) : Near n y x := ⟨h.ge, h.le⟩

/-- What is near a positive magnitude is positive. -/
theorem pos (h : Near n x y) (hy : 0 < y) : 0 < x := by
  by_contra hx
  have hn := pow_pos roundingFactor_pos n
  exact absurd (h.ge.trans (mul_nonpos_of_nonpos_of_nonneg (not_lt.mp hx) hn.le)) (not_le.mpr hy)

/-- Factors add up along a product. -/
theorem mul (h : Near m x y) (h' : Near n x' y') (hx : 0 ≤ x) (hx' : 0 ≤ x') (hy : 0 ≤ y)
    (hy' : 0 ≤ y') : Near (m + n) (x * x') (y * y') := by
  have hm := pow_pos roundingFactor_pos m
  have hn := pow_pos roundingFactor_pos n
  constructor
  · calc x * x' ≤ y * roundingFactor ^ m * (y' * roundingFactor ^ n) :=
          mul_le_mul h.le h'.le hx' (mul_nonneg hy hm.le)
      _ = y * y' * roundingFactor ^ (m + n) := by ring
  · calc y * y' ≤ x * roundingFactor ^ m * (x' * roundingFactor ^ n) :=
          mul_le_mul h.ge h'.ge hy' (mul_nonneg hx hm.le)
      _ = x * x' * roundingFactor ^ (m + n) := by ring

/-- Inverses are as near as what they are inverses of. -/
theorem inv (h : Near n x y) (hx : 0 < x) (hy : 0 < y) : Near n x⁻¹ y⁻¹ := by
  have hn := pow_pos roundingFactor_pos n
  constructor
  · rw [← div_eq_inv_mul, inv_le_iff_one_le_mul₀ hx, div_mul_eq_mul_div, le_div_iff₀ hy, one_mul,
      mul_comm]
    exact h.ge
  · rw [← div_eq_inv_mul, inv_le_iff_one_le_mul₀ hy, div_mul_eq_mul_div, le_div_iff₀ hx, one_mul,
      mul_comm]
    exact h.le

/-- Factors add up along a quotient. -/
theorem div (h : Near m x y) (h' : Near n x' y') (hx : 0 ≤ x) (hx' : 0 < x') (hy : 0 ≤ y)
    (hy' : 0 < y') : Near (m + n) (x / x') (y / y') := by
  rw [div_eq_mul_inv, div_eq_mul_inv]
  exact h.mul (h'.inv hx' hy') hx (inv_pos.mpr hx').le hy (inv_pos.mpr hy').le

/-- Factors add up from one magnitude to the next. -/
theorem trans (h : Near m x y) (h' : Near n y x') : Near (m + n) x x' := by
  have hm := pow_pos roundingFactor_pos m
  have hn := pow_pos roundingFactor_pos n
  constructor
  · calc x ≤ y * roundingFactor ^ m := h.le
      _ ≤ x' * roundingFactor ^ n * roundingFactor ^ m := mul_le_mul_of_nonneg_right h'.le hm.le
      _ = x' * roundingFactor ^ (m + n) := by ring
  · calc x' ≤ y * roundingFactor ^ n := h'.ge
      _ ≤ x * roundingFactor ^ m * roundingFactor ^ n := mul_le_mul_of_nonneg_right h.ge hn.le
      _ = x * roundingFactor ^ (m + n) := by ring

/-- A quotient near another is rounded to no rank further behind. -/
theorem rank_le {num den num' den' : Nat} (hden : 0 < den) (hden' : 0 < den')
    (h : Near (n + 1) ((num : ℚ) / den) ((num' : ℚ) / den')) :
    rankOfRatio num den ≤ rankOfRatio num' den' + (n + 1) := by
  apply rankOfRatio_le_of_lt hden
  calc (num : ℚ) / den ≤ num' / den' * roundingFactor ^ (n + 1) := h.le
    _ ≤ rankMidpoint (rankOfRatio num' den') * roundingFactor ^ (n + 1) :=
        mul_le_mul_of_nonneg_right (div_le_rankMidpoint hden')
          (pow_pos roundingFactor_pos _).le
    _ < rankMidpoint (rankOfRatio num' den' + (n + 1)) := rankMidpoint_mul_pow_lt _ n

/-- **Quotients that are near have ranks that are near.** -/
theorem dist_le {num den num' den' : Nat} (hden : 0 < den) (hden' : 0 < den')
    (h : Near (n + 1) ((num : ℚ) / den) ((num' : ℚ) / den')) :
    Nat.dist (rankOfRatio num den) (rankOfRatio num' den') ≤ n + 1 := by
  have hle := h.rank_le hden hden'
  have hge := h.symm.rank_le hden' hden
  unfold Nat.dist
  omega

end Near

/-- Half a step is at most one part in `2 * r` of what is `r` steps or more. -/
theorem mul_le_of_half_step {r t v step : Nat} (hhalf : 2 * v ≤ 2 * t + step)
    (ht : r * step ≤ t) : 2 * r * v ≤ (2 * r + 1) * t := by
  calc 2 * r * v = r * (2 * v) := by ring
    _ ≤ r * (2 * t + step) := Nat.mul_le_mul_left r hhalf
    _ = 2 * r * t + r * step := by ring
    _ ≤ 2 * r * t + t := Nat.add_le_add_left ht _
    _ = (2 * r + 1) * t := by ring

/-- **One rounding sets apart by one,** from the end of the first run on. -/
theorem near_rankOfRatio (hden : 0 < den) (h : runLength * den ≤ num * unitsInOne) :
    Near 1 (rankValue (rankOfRatio num den)) ((num : ℚ) / den) := by
  obtain ⟨shift, multiple, hrank, hstart, -, hlow, hhigh, hhalf⟩ := rankOfRatio_run num hden
  have hvalue := unitsOfRank_run_mul den hlow hhigh
  rw [← hrank] at hvalue
  have hwidth : 0 < den * twoPow shift := Nat.mul_pos hden (twoPow_pos shift)
  have hfrom : runLength * (den * twoPow shift) ≤ num * unitsInOne := by
    rcases hstart with hfirst | hstart
    · have hwidth : den * twoPow shift = den := by rw [hfirst, twoPow_zero, Nat.mul_one]
      rw [hwidth]
      exact h
    · exact hstart
  have hmultiple : runLength * (den * twoPow shift) ≤ multiple * (den * twoPow shift) := by
    apply Nat.mul_le_mul_right
    by_contra hbelow
    have hnext := Nat.mul_le_mul_right (den * twoPow shift) (Nat.lt_of_not_le hbelow)
    rw [Nat.succ_mul] at hnext
    unfold Nat.dist at hhalf
    omega
  have hup : 2 * runLength * (multiple * (den * twoPow shift)) ≤
      (2 * runLength + 1) * (num * unitsInOne) := by
    apply mul_le_of_half_step _ hfrom
    unfold Nat.dist at hhalf
    omega
  have hdown : 2 * runLength * (num * unitsInOne) ≤
      (2 * runLength + 1) * (multiple * (den * twoPow shift)) := by
    apply mul_le_of_half_step _ hmultiple
    unfold Nat.dist at hhalf
    omega
  rw [← hvalue] at hup hdown
  rw [rankValue]
  apply Near.of_nat unitsInOne_pos hden
  · simpa only [pow_one] using hup
  · simpa only [pow_one] using hdown

end RuleEngine
