import RuleEngine.Number.Scaled
import RuleEngine.Proofs.DecimalRank
import RuleEngine.Proofs.RoundingError

/-!
# How far scaled reading may miss

Scaled reading rounds three times: the digits, the power of ten, and what comes of
scaling the one by the other.  A numeral whose digits are a number, with a power of ten
that is one, is rounded the last time only, and so to the rank nearest to it.  In general
the first two roundings set apart what is rounded the last time from the numeral by two
factors, and the rank read is one of the five around the nearest.

Below the least power of ten there is one more division.  There the second power is a
number, for it is a small one, so that three roundings stand before the last.

* `Numeral.counter_eq` — digits that fit the counter are all read;
* `near_natural`, `near_power` — the first two roundings;
* `scaledRank_exact` — scaling without rounding before the last;
* `scaleRank_near` — scaling in general.
-/

namespace RuleEngine

/-! ## The counter -/

/-- Digits before the point that fit the counter are all kept. -/
theorem clipWhole_of_lt {n : Nat} (h : n < counterLimit) : clipWhole n = (n, 0) := by
  rw [clipWhole, if_pos h]

/-- More digits make no number smaller. -/
theorem le_valueFrom (start : Nat) (digits : List Digit) : start ≤ valueFrom start digits := by
  induction digits generalizing start with
  | nil => exact Nat.le_refl start
  | cons d digits ih =>
      have hfirst : start ≤ 10 * start + d.val := by omega
      exact Nat.le_trans hfirst (ih (10 * start + d.val))

/-- Digits behind the point that fit the counter are all kept. -/
theorem takeDigits_of_lt {counter : Nat} {digits : List Digit}
    (h : valueFrom counter digits < counterLimit) :
    takeDigits counter digits = (valueFrom counter digits, digits.length) := by
  induction digits generalizing counter with
  | nil => rfl
  | cons d digits ih =>
      have hnext : valueFrom counter (d :: digits) = valueFrom (10 * counter + d.val) digits := rfl
      rw [hnext] at h ⊢
      have hfits := Nat.lt_of_le_of_lt (le_valueFrom (10 * counter + d.val) digits) h
      rw [takeDigits, if_pos hfits, ih h]
      rfl

/-- **Digits that fit the counter are all read.** -/
theorem Numeral.counter_eq {n : Numeral} (h : n.magnitude.digits < counterLimit) :
    n.counter = (n.magnitude.digits, n.magnitude.exponent) := by
  rw [magnitude] at h ⊢
  dsimp only at h ⊢
  have hwhole := Nat.lt_of_le_of_lt (le_valueFrom n.whole n.fraction) h
  rw [counter, clipWhole_of_lt hwhole]
  dsimp only
  rw [takeDigits_of_lt h, Int.natCast_zero, Int.add_zero]

/-! ## Numbers that are exact -/

/-- Powers of ten up to the twenty-second are numbers. -/
theorem unitsOfRank_powerRank {k : Nat} (h : k ≤ 22) :
    unitsOfRank (powerRank k) = tenPow k * unitsInOne := by
  have hfive : Nat.pow 5 k ≤ 2 * runLength := by
    have hmost : Nat.pow 5 22 ≤ 2 * runLength := by decide
    exact Nat.le_trans (Nat.pow_le_pow_right (by decide) h) hmost
  obtain ⟨rank, hrank⟩ := exists_unitsOfRank_eq (k + 1074) hfive
  have hunits : unitsOfRank rank = tenPow k * unitsInOne := by
    rw [hrank, tenPow_eq_mul, unitsInOne, twoPow_add, Nat.mul_assoc]
  have hexact : powerRank k = rank := by
    rw [powerRank]
    exact rankOfRatio_eq Nat.one_pos (by rw [Nat.mul_one, hunits])
  rw [hexact, hunits]

/-! ## One step of scaling -/

/-- The rank that one multiplication or division by a power of ten gives. -/
def scaledRank (rank : Nat) (exponent : Int) : Nat :=
  if 0 ≤ exponent then productRank rank (powerRank exponent.toNat)
  else quotientRank rank (powerRank (-exponent).toNat)

/-- A power of ten that is in the table is scaled by in one step. -/
theorem scaleRank_of_le {rank : Nat} {exponent : Int} (h : exponent.natAbs ≤ largestPower)
    (hfinite : scaledRank rank exponent < rankLimit) :
    scaleRank rank exponent = some (scaledRank rank exponent) := by
  unfold scaledRank at hfinite ⊢
  rw [scaleRank, if_pos h]
  split
  · rename_i hpos
    rw [if_pos hpos] at hfinite
    dsimp only
    rw [if_pos hfinite]
  · rfl

/-- Below the least power of ten the largest is divided by first. -/
theorem scaleRank_of_lt {rank : Nat} {exponent : Int} (h : exponent < -largestPower) :
    scaleRank rank exponent =
      if rank = 0 then some 0
      else scaleRank (quotientRank rank (powerRank largestPower)) (exponent + largestPower) := by
  have hdeep : ¬ exponent.natAbs ≤ largestPower := by omega
  have hneg : ¬ 0 ≤ exponent := by omega
  rw [scaleRank, if_neg hdeep, if_neg hneg]

/-- **Scaling is exact before the last rounding,** where the digits and the power are. -/
theorem scaledRank_exact {d : Decimal}
    (hdigits : unitsOfRank (rankOfRatio d.digits 1) = d.digits * unitsInOne)
    (hexponent : d.exponent.natAbs ≤ 22) :
    scaledRank (rankOfRatio d.digits 1) d.exponent = d.rank := by
  unfold scaledRank
  split
  · have hone : tenPow (-d.exponent).toNat = 1 := by
      rw [Int.toNat_of_nonpos (by omega), tenPow_zero]
    rw [productRank, Decimal.rank, hdigits, unitsOfRank_powerRank (by omega), hone]
    apply rankOfRatio_congr (Nat.mul_pos unitsInOne_pos unitsInOne_pos) Nat.one_pos
    rw [Nat.mul_one, Nat.mul_mul_mul_comm]
  · have hone : tenPow d.exponent.toNat = 1 := by
      rw [Int.toNat_of_nonpos (by omega), tenPow_zero]
    rw [quotientRank, Decimal.rank, hdigits, unitsOfRank_powerRank (by omega), hone, Nat.mul_one]
    apply rankOfRatio_congr (Nat.mul_pos (tenPow_pos _) unitsInOne_pos) (tenPow_pos _)
    rw [Nat.mul_assoc, Nat.mul_comm unitsInOne]

/-! ## Two roundings before the last -/

/-- A natural number is rounded once. -/
theorem near_natural (n : Nat) : Near 1 (rankValue (rankOfRatio n 1)) n := by
  rcases Nat.eq_zero_or_pos n with rfl | hpos
  · rw [rankOfRatio_zero, rankValue_zero]
    constructor <;> simp
  · have hrun : runLength ≤ unitsInOne := by decide +kernel
    have hle : runLength * 1 ≤ n * unitsInOne := by
      rw [Nat.mul_one]
      exact Nat.le_trans hrun (Nat.le_mul_of_pos_left _ hpos)
    have hnear := near_rankOfRatio Nat.one_pos hle
    rwa [Nat.cast_one, div_one] at hnear

/-- A power of ten is rounded once. -/
theorem near_power (k : Nat) : Near 1 (rankValue (powerRank k)) (10 ^ k) := by
  rw [powerRank, ← Decimal.tenPow_eq_pow]
  exact near_natural (tenPow k)

/-- A small power of ten is not rounded at all. -/
theorem near_power_of_le {k : Nat} (h : k ≤ 22) : Near 0 (rankValue (powerRank k)) (10 ^ k) := by
  have hne : (unitsInOne : ℚ) ≠ 0 := unitsInOne_cast_pos.ne'
  have hvalue : rankValue (powerRank k) = 10 ^ k := by
    rw [rankValue, unitsOfRank_powerRank h, ← Decimal.tenPow_eq_pow]
    push_cast
    rw [mul_div_assoc, div_self hne, mul_one]
  rw [hvalue]
  exact Near.refl _

theorem rankValue_powerRank_pos (k : Nat) : 0 < rankValue (powerRank k) :=
  (near_power k).pos (by positivity)

/-- A product of ranks is the product of their magnitudes. -/
theorem productRatio (a b : Nat) :
    ((unitsOfRank a * unitsOfRank b : Nat) : ℚ) / (unitsInOne * unitsInOne : Nat) =
      rankValue a * rankValue b := by
  rw [rankValue, rankValue, div_mul_div_comm]
  push_cast
  rfl

/-- A quotient of ranks is the quotient of their magnitudes. -/
theorem quotientRatio (a b : Nat) :
    (unitsOfRank a : ℚ) / unitsOfRank b = rankValue a / rankValue b := by
  rw [rankValue, rankValue, div_div_div_cancel_right₀ unitsInOne_cast_pos.ne']

theorem unitsOfRank_pos {rank : Nat} (h : 0 < rankValue rank) : 0 < unitsOfRank rank := by
  rw [rankValue, div_pos_iff_of_pos_right unitsInOne_cast_pos] at h
  exact_mod_cast h

/-- **What is scaled once is as far from the decimal as its factors are.** -/
theorem dist_scaledRank_le {m p n rank : Nat} {x : ℚ} {exponent : Int} {d : Decimal}
    (hx : 0 ≤ x) (hrank : Near m (rankValue rank) x)
    (hpower : Near p (rankValue (powerRank exponent.natAbs)) (10 ^ exponent.natAbs))
    (hvalue : d.value = x * 10 ^ exponent) (hn : m + p = n + 1) :
    Nat.dist (scaledRank rank exponent) d.rank ≤ n + 1 := by
  have hten : (0 : ℚ) < 10 ^ exponent.natAbs := by positivity
  have hpos := rankValue_powerRank_pos exponent.natAbs
  rw [Decimal.value_eq_div] at hvalue
  unfold scaledRank
  split
  · have hexponent : exponent = exponent.natAbs := by omega
    have htoNat : exponent.toNat = exponent.natAbs := by omega
    have hnear := hrank.mul hpower (rankValue_nonneg rank) hpos.le hx hten.le
    rw [← productRatio, ← zpow_natCast, ← hexponent, ← hvalue, hn] at hnear
    rw [htoNat]
    exact hnear.dist_le (Nat.mul_pos unitsInOne_pos unitsInOne_pos) (tenPow_pos _)
  · have hexponent : exponent = -(exponent.natAbs : Int) := by omega
    have htoNat : (-exponent).toNat = exponent.natAbs := by omega
    have hnear := hrank.div hpower (rankValue_nonneg rank) hpos hx hten
    have hquotient : x / 10 ^ exponent.natAbs = x * 10 ^ exponent := by
      rw [div_eq_mul_inv, ← zpow_natCast, ← zpow_neg, ← hexponent]
    rw [← quotientRatio, hquotient, ← hvalue, hn] at hnear
    rw [htoNat]
    exact hnear.dist_le (unitsOfRank_pos hpos) (tenPow_pos _)

/-! ## Three roundings before the last -/

/-- One and two over the largest power are where the ranks are crowded to zero, but not
far from the end of that. -/
theorem near_small_over_largest {n : Nat} (h : n = 1 ∨ n = 2) :
    Near 3 (rankValue (quotientRank (rankOfRatio n 1) (powerRank largestPower)))
      (n / 10 ^ largestPower) := by
  have hunits : ∀ n ∈ [1, 2],
      (2 * runLength) ^ 3 * (unitsOfRank (quotientRank (rankOfRatio n 1)
          (powerRank largestPower)) * tenPow largestPower) ≤
        (2 * runLength + 1) ^ 3 * (n * unitsInOne) ∧
      (2 * runLength) ^ 3 * (n * unitsInOne) ≤
        (2 * runLength + 1) ^ 3 * (unitsOfRank (quotientRank (rankOfRatio n 1)
          (powerRank largestPower)) * tenPow largestPower) := by
    decide +kernel
  obtain ⟨hle, hge⟩ := hunits n (by simpa using h)
  rw [rankValue, ← Decimal.tenPow_eq_pow]
  exact Near.of_nat unitsInOne_pos (tenPow_pos _) hle hge

/-- Larger numbers over the largest power are past that. -/
theorem near_large_over_largest {n : Nat} (hn : 3 ≤ n) :
    Near 3 (rankValue (quotientRank (rankOfRatio n 1) (powerRank largestPower)))
      (n / 10 ^ largestPower) := by
  have hthree : unitsOfRank (rankOfRatio 3 1) = 3 * unitsInOne :=
    unitsOfRank_rankOfRatio (by decide)
  have hfrom : rankOfRatio 3 1 ≤ rankOfRatio n 1 := by
    apply le_rankOfRatio Nat.one_pos
    rw [hthree, Nat.mul_one]
    exact Nat.mul_le_mul_right _ hn
  have hbound : runLength * unitsOfRank (powerRank largestPower) ≤
      3 * unitsInOne * unitsInOne := by decide +kernel
  have hcrowded : runLength * unitsOfRank (powerRank largestPower) ≤
      unitsOfRank (rankOfRatio n 1) * unitsInOne := by
    apply Nat.le_trans hbound
    rw [← hthree]
    exact Nat.mul_le_mul_right _ (unitsOfRank_strictMono.monotone hfrom)
  have hpos := rankValue_powerRank_pos largestPower
  have hten : (0 : ℚ) < 10 ^ largestPower := by positivity
  have hlast := near_rankOfRatio (unitsOfRank_pos hpos) hcrowded
  have hfactors := (near_natural n).div (near_power largestPower) (rankValue_nonneg _) hpos
    (Nat.cast_nonneg n) hten
  rw [quotientRatio] at hlast
  exact hlast.trans hfactors

/-- **What is divided by the largest power is three factors from the quotient** at most. -/
theorem near_over_largest {n : Nat} (hn : 0 < n) :
    Near 3 (rankValue (quotientRank (rankOfRatio n 1) (powerRank largestPower)))
      (n / 10 ^ largestPower) := by
  rcases Nat.lt_or_ge n 3 with hsmall | hlarge
  · exact near_small_over_largest (by omega)
  · exact near_large_over_largest hlarge

/-- No number but zero is rounded to zero. -/
theorem rankOfRatio_ne_zero {n : Nat} (hn : 0 < n) : rankOfRatio n 1 ≠ 0 := by
  intro hzero
  have hvalue := (near_natural n).pos (by exact_mod_cast hn)
  rw [hzero, rankValue_zero] at hvalue
  exact lt_irrefl _ hvalue

/-! ## Scaled reading -/

/-- Ranks that scaled reading is off at most. -/
def scaledMiss (exponent : Int) : Nat := if -(largestPower : Int) ≤ exponent then 2 else 3

theorem scaledMiss_le (exponent : Int) : scaledMiss exponent ≤ 3 := by
  unfold scaledMiss
  split <;> decide

variable {d : Decimal}

/-- One step of scaling goes two ranks from the nearest at most. -/
theorem scaleRank_near_of_le (h : d.exponent.natAbs ≤ largestPower)
    (hfit : d.rank + 2 < rankLimit) :
    ∃ rank, scaleRank (rankOfRatio d.digits 1) d.exponent = some rank ∧
      Nat.dist rank d.rank ≤ 2 := by
  have hdist : Nat.dist (scaledRank (rankOfRatio d.digits 1) d.exponent) d.rank ≤ 1 + 1 :=
    dist_scaledRank_le (Nat.cast_nonneg d.digits) (near_natural d.digits) (near_power _) rfl rfl
  have hfinite : scaledRank (rankOfRatio d.digits 1) d.exponent < rankLimit := by
    unfold Nat.dist at hdist
    omega
  exact ⟨_, scaleRank_of_le h hfinite, hdist⟩

/-- Two steps go three ranks from it. -/
theorem scaleRank_near_of_lt (h : d.exponent < -largestPower) (hlow : -330 ≤ d.exponent)
    (hfit : d.rank + 3 < rankLimit) :
    ∃ rank, scaleRank (rankOfRatio d.digits 1) d.exponent = some rank ∧
      Nat.dist rank d.rank ≤ 3 := by
  rw [scaleRank_of_lt h]
  rcases Nat.eq_zero_or_pos d.digits with hzero | hpos
  · rw [Decimal.rank_of_digits_eq_zero hzero, hzero, rankOfRatio_zero, if_pos rfl]
    exact ⟨0, rfl, by decide⟩
  · have hvalue : d.value =
        d.digits / 10 ^ largestPower * 10 ^ (d.exponent + largestPower) := by
      rw [Decimal.value, zpow_add₀ (by norm_num), zpow_natCast]
      field_simp
    have hrest : (d.exponent + largestPower).natAbs ≤ 22 := by
      rw [largestPower] at h ⊢
      omega
    have hreach : (d.exponent + largestPower).natAbs ≤ largestPower :=
      Nat.le_trans hrest (by decide)
    have hdist := dist_scaledRank_le (by positivity) (near_over_largest hpos)
      (near_power_of_le hrest) hvalue rfl
    have hfinite : scaledRank (quotientRank (rankOfRatio d.digits 1) (powerRank largestPower))
        (d.exponent + largestPower) < rankLimit := by
      unfold Nat.dist at hdist
      omega
    rw [if_neg (rankOfRatio_ne_zero hpos)]
    exact ⟨_, scaleRank_of_le hreach hfinite, hdist⟩

/-- **Scaled reading goes to a rank that is not far from the nearest,** and never fails,
unless the decimal is at the end of the finite numbers. -/
theorem scaleRank_near (hlow : -330 ≤ d.exponent) (hhigh : d.exponent ≤ largestPower)
    (hfit : d.rank + 3 < rankLimit) :
    ∃ rank, scaleRank (rankOfRatio d.digits 1) d.exponent = some rank ∧
      Nat.dist rank d.rank ≤ scaledMiss d.exponent := by
  unfold scaledMiss
  split
  · exact scaleRank_near_of_le (by omega) (by omega)
  · rename_i hdeep
    exact scaleRank_near_of_lt (Int.not_le.mp hdeep) hlow hfit

end RuleEngine
