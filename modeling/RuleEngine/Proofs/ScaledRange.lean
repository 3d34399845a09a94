import RuleEngine.Proofs.ScaledReading
import RuleEngine.Proofs.ShortestDigits

/-!
# The range of scaled reading

Scaled reading fails where the number is too large, and the end of the finite numbers is
where it fails.  But what is compared with this end is not the numeral: it is a product of
two rounded factors, taken from digits of which those that do not fit the counter were cut
off.  Each of the three sets the product apart from the numeral by one rounding at most.  So
a numeral that is below the end by more than three roundings is read, one that is beyond it
by more is not, and between the two it may go either way, whatever side the numeral itself
is on.

Where it does not fail, a finite number is read.

* `clipWhole_bounds`, `exists_takeDigits` — what the counter keeps of the digits;
* `Numeral.near_counter` — cutting digits off is no more than one rounding;
* `lt_of_scaleRank`, `scaleRank_isSome_of_neg` — what scaling gives is finite, and small
  numbers do not fail;
* `finiteEnd`, `roundings_from_end` — the end, and decimals three roundings from it;
* `scaleRank_isSome_of_lt`, `scaleRank_eq_none_of_lt` — on either side of the end;
* `Numeral.exists_scaled_of_lt`, `Numeral.scaled?_eq_none_of_le` — the same for numerals.
-/

namespace RuleEngine

/-! ## What the counter keeps -/

/-- The digits that are kept are the leading ones, and they fill the counter where others
are cut off. -/
theorem clipWhole_bounds {n kept cut : Nat} (h : clipWhole n = (kept, cut)) :
    kept < counterLimit ∧ kept * tenPow cut ≤ n ∧ n < (kept + 1) * tenPow cut ∧
      (cut = 0 ∨ counterLimit ≤ 10 * kept + 9) := by
  fun_induction clipWhole n generalizing kept cut with
  | case1 n hfits =>
      obtain ⟨rfl, rfl⟩ := Prod.mk.inj h
      rw [tenPow_zero]
      omega
  | case2 n hlong kept' cut' hclip ih =>
      obtain ⟨rfl, rfl⟩ := Prod.mk.inj h
      obtain ⟨hlimit, hlow, hhigh, hfull⟩ := ih hclip
      rw [tenPow_succ, ← Nat.mul_assoc, ← Nat.mul_assoc]
      refine ⟨hlimit, by omega, by omega, .inr ?_⟩
      rcases hfull with rfl | hfull
      · rw [tenPow_zero] at hlow hhigh
        omega
      · exact hfull

/-- Of further digits the first are taken, all of them or until the counter is full. -/
theorem exists_takeDigits {counter : Nat} (h : counter < counterLimit) (digits : List Digit) :
    ∃ taken rest, digits = taken ++ rest ∧
      takeDigits counter digits = (valueFrom counter taken, taken.length) ∧
      valueFrom counter taken < counterLimit ∧
      (rest = [] ∨ counterLimit ≤ 10 * valueFrom counter taken + 9) := by
  induction digits generalizing counter with
  | nil => exact ⟨[], [], rfl, rfl, h, .inl rfl⟩
  | cons d digits ih =>
      by_cases hfits : 10 * counter + d.val < counterLimit
      · obtain ⟨taken, rest, rfl, htake, hlimit, hfull⟩ := ih hfits
        refine ⟨d :: taken, rest, rfl, ?_, hlimit, hfull⟩
        rw [takeDigits, if_pos hfits, htake]
        rfl
      · have hcounter : valueFrom counter [] = counter := rfl
        refine ⟨[], d :: digits, rfl, ?_, h, .inr ?_⟩
        · rw [takeDigits, if_neg hfits]
          rfl
        · rw [hcounter]
          omega

/-- A number and further digits is at least the number and as many zeros. -/
theorem mul_tenPow_le_valueFrom (start : Nat) (digits : List Digit) :
    start * tenPow digits.length ≤ valueFrom start digits := by
  induction digits generalizing start with
  | nil => exact (Nat.mul_one start).le
  | cons d digits ih =>
      have hd : start * 10 ≤ 10 * start + d.val := by omega
      have hmul := Nat.mul_le_mul_right (tenPow digits.length) hd
      rw [List.length_cons, tenPow_succ, Nat.mul_comm (tenPow digits.length), ← Nat.mul_assoc]
      exact hmul.trans (ih (10 * start + d.val))

theorem one_le_roundingFactor : 1 ≤ roundingFactor := by
  norm_num [roundingFactor, runLength]

/-- A magnitude is near itself, with a rounding to spare. -/
theorem near_self {x : ℚ} (hx : 0 ≤ x) : Near 1 x x := by
  have hle : x ≤ x * roundingFactor ^ 1 := by
    rw [pow_one]
    exact le_mul_of_one_le_right hx one_le_roundingFactor
  exact ⟨hle, hle⟩

/-- Numbers with the same leading digits are one rounding apart, where these fill the
counter. -/
theorem near_of_leading (place : Int) {lead : Nat} {x y : ℚ}
    (hlead : counterLimit ≤ 10 * lead + 9)
    (hx : (lead : ℚ) * 10 ^ place ≤ x ∧ x < (lead + 1 : Nat) * 10 ^ place)
    (hy : (lead : ℚ) * 10 ^ place ≤ y ∧ y < (lead + 1 : Nat) * 10 ^ place) : Near 1 x y := by
  have hplace : (0 : ℚ) < 10 ^ place := by positivity
  have hmany : (2 * runLength : ℚ) ≤ lead := by
    have hfill : 2 * runLength ≤ lead := by
      simp only [counterLimit] at hlead
      simp only [runLength]
      omega
    exact_mod_cast hfill
  have hrun : (0 : ℚ) < 2 * runLength := by norm_num [runLength]
  have hstep : ((lead + 1 : Nat) : ℚ) ≤ lead * roundingFactor := by
    rw [roundingFactor, mul_div_assoc', le_div_iff₀ hrun]
    push_cast
    linarith
  have hnext : ((lead + 1 : Nat) : ℚ) * 10 ^ place ≤ lead * 10 ^ place * roundingFactor := by
    rw [mul_right_comm]
    exact mul_le_mul_of_nonneg_right hstep hplace.le
  have hfactor := roundingFactor_pos.le
  constructor
  · rw [pow_one]
    exact hx.2.le.trans (hnext.trans (mul_le_mul_of_nonneg_right hy.1 hfactor))
  · rw [pow_one]
    exact hy.2.le.trans (hnext.trans (mul_le_mul_of_nonneg_right hx.1 hfactor))

/-- A number times a power of ten is between two others times another power. -/
theorem mul_zpow_mem {lead n k : Nat} {place exponent : Int} (hexponent : place = exponent + k)
    (hlow : lead * tenPow k ≤ n) (hhigh : n < (lead + 1) * tenPow k) :
    (lead : ℚ) * 10 ^ place ≤ n * 10 ^ exponent ∧
      (n : ℚ) * 10 ^ exponent < (lead + 1 : Nat) * 10 ^ place := by
  have hpow : (10 : ℚ) ^ place = tenPow k * 10 ^ exponent := by
    rw [hexponent, zpow_add₀ (by norm_num), zpow_natCast, Decimal.tenPow_eq_pow, mul_comm]
  have hpos : (0 : ℚ) < 10 ^ exponent := by positivity
  rw [hpow, ← mul_assoc, ← mul_assoc]
  constructor
  · exact mul_le_mul_of_nonneg_right (by exact_mod_cast hlow) hpos.le
  · exact mul_lt_mul_of_pos_right (by exact_mod_cast hhigh) hpos

namespace Numeral

/-- What the counter holds of a numeral, as a decimal. -/
def kept (n : Numeral) : Decimal := ⟨n.counter.1, n.counter.2⟩

/-- **Cutting digits off is no more than one rounding.** -/
theorem near_counter (n : Numeral) :
    n.kept.digits < counterLimit ∧ Near 1 n.kept.value n.magnitude.value := by
  obtain ⟨negative, whole, fraction, exponent⟩ := n
  cases hclip : clipWhole whole with
  | mk lead cut =>
      obtain ⟨hlimit, hlow, hhigh, hfull⟩ := clipWhole_bounds hclip
      obtain ⟨taken, rest, rfl, htake, hdigits, hrest⟩ := exists_takeDigits hlimit fraction
      have hkept : kept ⟨negative, whole, taken ++ rest, exponent⟩ =
          ⟨valueFrom lead taken, exponent.getD 0 + cut - taken.length⟩ := by
        rw [kept, counter]
        simp only [hclip, htake]
      rw [hkept]
      refine ⟨hdigits, ?_⟩
      rw [Decimal.value, Decimal.value, magnitude]
      dsimp only
      rcases hfull with rfl | hfull
      · -- the whole part is kept, and the digits that are cut off are the last of the fraction
        have hwhole : whole = lead := by
          rw [tenPow_zero] at hlow hhigh
          omega
        rw [hwhole, valueFrom_append, List.length_append]
        rcases hrest with rfl | hrest
        · rw [Int.natCast_zero, Int.add_zero, List.length_nil, Nat.add_zero]
          exact near_self (by positivity)
        · apply near_of_leading (exponent.getD 0 - taken.length) hrest
          · exact mul_zpow_mem (k := 0) (by simp) (by simp [tenPow_zero]) (by simp [tenPow_zero])
          · exact mul_zpow_mem (by push_cast; ring) (mul_tenPow_le_valueFrom _ rest)
              (valueFrom_lt _ rest)
      · -- the whole part fills the counter already
        apply near_of_leading (exponent.getD 0 + cut) hfull
        · exact mul_zpow_mem (by ring) (mul_tenPow_le_valueFrom lead taken) (valueFrom_lt lead taken)
        · have hlower := mul_tenPow_le_valueFrom whole (taken ++ rest)
          have hupper := valueFrom_lt whole (taken ++ rest)
          apply mul_zpow_mem (k := cut + (taken ++ rest).length) (by push_cast; ring)
          · rw [tenPow_add, ← Nat.mul_assoc]
            exact (Nat.mul_le_mul_right _ hlow).trans hlower
          · rw [tenPow_add, ← Nat.mul_assoc]
            exact hupper.trans_le (Nat.mul_le_mul_right _ hhigh)

end Numeral

/-! ## What scaling gives -/

/-- What fits the counter is rounded to a finite number. -/
theorem rankOfRatio_lt_rankLimit {n : Nat} (h : n < counterLimit) : rankOfRatio n 1 < rankLimit := by
  have hpow : counterLimit = twoPow 64 := by decide
  have hle : rankOfRatio n 1 ≤ (1023 + 64) * runLength := by
    apply rankOfRatio_le Nat.one_pos
    rw [unitsOfRank_powerOfTwo, Nat.mul_one, ← hpow]
    exact Nat.mul_le_mul_right _ h.le
  exact Nat.lt_of_le_of_lt hle (by decide)

/-- Dividing by a power of ten makes no number larger. -/
theorem quotientRank_le (rank k : Nat) : quotientRank rank (powerRank k) ≤ rank := by
  have hone : unitsOfRank (rankOfRatio 1 1) = 1 * unitsInOne := unitsOfRank_rankOfRatio (by decide)
  have hpower : rankOfRatio 1 1 ≤ powerRank k := by
    apply le_rankOfRatio Nat.one_pos
    rw [hone, Nat.mul_one]
    exact Nat.mul_le_mul_right _ (tenPow_pos k)
  have hunits : unitsInOne ≤ unitsOfRank (powerRank k) := by
    rw [← Nat.one_mul unitsInOne, ← hone]
    exact unitsOfRank_strictMono.monotone hpower
  exact rankOfRatio_le (Nat.lt_of_lt_of_le unitsInOne_pos hunits) (Nat.mul_le_mul_left _ hunits)

/-- **What scaling gives is finite.** -/
theorem lt_of_scaleRank {rank scaled : Nat} {exponent : Int} (hrank : rank < rankLimit)
    (h : scaleRank rank exponent = some scaled) : scaled < rankLimit := by
  fun_induction scaleRank rank exponent with
  | case1 rank exponent hreach hpos product hfinite => exact Option.some.inj h ▸ hfinite
  | case2 => cases h
  | case3 rank exponent hreach hneg =>
      exact Option.some.inj h ▸ Nat.lt_of_le_of_lt (quotientRank_le rank _) hrank
  | case4 => exact Option.some.inj h ▸ hrank
  | case5 => cases h
  | case6 rank exponent hdeep hzero hneg ih =>
      exact ih (Nat.lt_of_le_of_lt (quotientRank_le rank _) hrank) h

/-- What is divided only does not fail. -/
theorem scaleRank_isSome_of_neg {rank : Nat} {exponent : Int} (h : exponent < 0) :
    ∃ scaled, scaleRank rank exponent = some scaled := by
  fun_induction scaleRank rank exponent with
  | case1 rank exponent hreach hpos => omega
  | case2 rank exponent hreach hpos => omega
  | case3 => exact ⟨_, rfl⟩
  | case4 => exact ⟨0, rfl⟩
  | case5 rank exponent hdeep hzero hpos => omega
  | case6 rank exponent hdeep hzero hneg ih =>
      apply ih
      rw [largestPower] at hdeep ⊢
      omega

/-! ## The end of the finite numbers -/

/-- The end of the finite numbers, halfway from the largest of them to the power of two
behind it: from here on a quotient is rounded to no finite number. -/
def finiteEnd : Nat := (2 ^ 54 - 1) * twoPow 970

/-- The end is the midpoint behind the last finite rank. -/
theorem rankMidpoint_last : rankMidpoint (rankLimit - 1) = finiteEnd := by
  have hunits : unitsOfRank (rankLimit - 1) + unitsOfRank (rankLimit - 1 + 1) =
      2 * finiteEnd * unitsInOne := by
    decide +kernel
  have hcast : (unitsOfRank (rankLimit - 1) : ℚ) + unitsOfRank (rankLimit - 1 + 1) =
      2 * finiteEnd * unitsInOne := by
    exact_mod_cast hunits
  have hne : (unitsInOne : ℚ) ≠ 0 := unitsInOne_cast_pos.ne'
  rw [rankMidpoint, rankValue, rankValue, ← add_div, hcast, mul_div_assoc, div_self hne]
  ring

theorem counterLimit_lt_finiteEnd : counterLimit < finiteEnd := by
  have hpow : counterLimit = twoPow 64 := by decide
  calc counterLimit = twoPow 64 := hpow
    _ < twoPow 970 := twoPow_lt (by decide)
    _ ≤ finiteEnd := Nat.le_mul_of_pos_left _ (by decide)

theorem finiteEnd_pos : (0 : ℚ) < finiteEnd := by
  exact_mod_cast Nat.zero_lt_of_lt counterLimit_lt_finiteEnd

/-- Three roundings from the end, on either side of it. -/
theorem roundings_from_end :
    1797693134862315 * 10 ^ 293 * roundingFactor ^ 3 < finiteEnd ∧
      finiteEnd * roundingFactor ^ 3 < 1797693134862317 * 10 ^ 293 := by
  have hbounds : 1797693134862315 * tenPow 293 * (2 * runLength + 1) ^ 3 <
        finiteEnd * (2 * runLength) ^ 3 ∧
      finiteEnd * (2 * runLength + 1) ^ 3 <
        1797693134862317 * tenPow 293 * (2 * runLength) ^ 3 := by
    decide +kernel
  have hrun : (0 : ℚ) < (2 * runLength) ^ 3 := by norm_num [runLength]
  rw [roundingFactor, div_pow, mul_div_assoc', mul_div_assoc', div_lt_iff₀ hrun,
    div_lt_iff₀ hrun, ← Decimal.tenPow_eq_pow]
  exact_mod_cast hbounds

/-- Beyond the largest power that is finite is beyond the end. -/
theorem finiteEnd_lt_pow : (finiteEnd : ℚ) < 10 ^ (largestPower + 1) :=
  calc (finiteEnd : ℚ)
      ≤ finiteEnd * roundingFactor ^ 3 :=
        le_mul_of_one_le_right finiteEnd_pos.le (one_le_pow₀ one_le_roundingFactor)
    _ < 1797693134862317 * 10 ^ 293 := roundings_from_end.2
    _ ≤ 10 ^ 16 * 10 ^ 293 := mul_le_mul_of_nonneg_right (by norm_num) (by positivity)
    _ = 10 ^ (largestPower + 1) := (pow_add 10 16 293).symm

variable {d : Decimal}

/-- The product that scaling rounds last is two roundings from the decimal at most. -/
theorem near_product (h : 0 ≤ d.exponent) :
    Near 2 (rankValue (rankOfRatio d.digits 1) * rankValue (powerRank d.exponent.toNat))
      d.value := by
  have hnear := (near_natural d.digits).mul (near_power d.exponent.toNat) (rankValue_nonneg _)
    (rankValue_nonneg _) (Nat.cast_nonneg _) (by positivity)
  rwa [← zpow_natCast, Int.toNat_of_nonneg h, ← Decimal.value] at hnear

/-- A power beyond the largest needs no digits but zero to be beyond the end. -/
theorem finiteEnd_lt_value (hdigits : 0 < d.digits) (h : largestPower < d.exponent) :
    finiteEnd < d.value := by
  have hone : (1 : ℚ) ≤ d.digits := by exact_mod_cast hdigits
  have hpower : (10 : ℚ) ^ (largestPower + 1) ≤ 10 ^ d.exponent := by
    rw [← zpow_natCast]
    exact zpow_le_zpow_right₀ (by norm_num) h
  exact (finiteEnd_lt_pow.trans_le hpower).trans_le (le_mul_of_one_le_left (by positivity) hone)

/-- **Below the end scaling does not fail.** -/
theorem scaleRank_isSome_of_lt (h : d.value * roundingFactor ^ 2 < finiteEnd) :
    ∃ scaled, scaleRank (rankOfRatio d.digits 1) d.exponent = some scaled := by
  rcases lt_or_ge d.exponent 0 with hneg | hpos
  · exact scaleRank_isSome_of_neg hneg
  · by_cases hreach : d.exponent.natAbs ≤ largestPower
    · have hproduct : scaledRank (rankOfRatio d.digits 1) d.exponent ≤ rankLimit - 1 := by
        rw [scaledRank, if_pos hpos]
        apply rankOfRatio_le_of_lt (Nat.mul_pos unitsInOne_pos unitsInOne_pos)
        rw [productRatio, rankMidpoint_last]
        exact (near_product hpos).le.trans_lt h
      have hfinite : scaledRank (rankOfRatio d.digits 1) d.exponent < rankLimit :=
        Nat.lt_of_le_of_lt hproduct (by decide)
      exact ⟨_, scaleRank_of_le hreach hfinite⟩
    · have hzero : d.digits = 0 := by
        by_contra hdigits
        have hlarge := finiteEnd_lt_value (Nat.pos_of_ne_zero hdigits) (by omega)
        have hfactor : d.value ≤ d.value * roundingFactor ^ 2 :=
          le_mul_of_one_le_right (finiteEnd_pos.trans hlarge).le
            (one_le_pow₀ one_le_roundingFactor)
        linarith only [h, hlarge, hfactor]
      rw [hzero, rankOfRatio_zero, scaleRank, if_neg hreach, if_pos rfl]
      exact ⟨0, rfl⟩

/-- What is beyond the end has digits, and no fraction as large as its digits. -/
theorem pos_of_finiteEnd_lt (hdigits : d.digits < counterLimit) (h : finiteEnd < d.value) :
    0 < d.digits ∧ 0 ≤ d.exponent := by
  constructor
  · by_contra hzero
    have hvalue : d.value = 0 := by
      rw [Decimal.value, Nat.eq_zero_of_not_pos hzero, Nat.cast_zero, zero_mul]
    exact (finiteEnd_pos.trans h).ne' hvalue
  · by_contra hneg
    have hfew : (d.digits : ℚ) < finiteEnd := by
      exact_mod_cast hdigits.trans counterLimit_lt_finiteEnd
    have hvalue : d.value ≤ d.digits :=
      mul_le_of_le_one_right (Nat.cast_nonneg _)
        (zpow_le_one_of_nonpos₀ (by norm_num) (by omega))
    linarith only [h, hfew, hvalue]

/-- **Beyond the end scaling fails.** -/
theorem scaleRank_eq_none_of_lt (hdigits : d.digits < counterLimit)
    (h : finiteEnd * roundingFactor ^ 2 < d.value) :
    scaleRank (rankOfRatio d.digits 1) d.exponent = none := by
  have hbeyond : (finiteEnd : ℚ) < d.value :=
    (le_mul_of_one_le_right finiteEnd_pos.le (one_le_pow₀ one_le_roundingFactor)).trans_lt h
  obtain ⟨hsome, hpos⟩ := pos_of_finiteEnd_lt hdigits hbeyond
  by_cases hreach : d.exponent.natAbs ≤ largestPower
  · have hproduct : ¬ productRank (rankOfRatio d.digits 1) (powerRank d.exponent.toNat) <
        rankLimit := by
      intro hfinite
      have hlast : rankMidpoint (productRank (rankOfRatio d.digits 1)
          (powerRank d.exponent.toNat)) ≤ finiteEnd := by
        rw [← rankMidpoint_last]
        exact rankMidpoint_strictMono.monotone (by omega)
      have hquotient : rankValue (rankOfRatio d.digits 1) *
          rankValue (powerRank d.exponent.toNat) ≤ finiteEnd := by
        rw [← productRatio]
        exact (div_le_rankMidpoint (Nat.mul_pos unitsInOne_pos unitsInOne_pos)).trans hlast
      have hvalue := (near_product hpos).ge.trans
        (mul_le_mul_of_nonneg_right hquotient (pow_nonneg roundingFactor_pos.le 2))
      exact absurd hvalue (not_le.mpr h)
    rw [scaleRank, if_pos hreach, if_pos hpos]
    dsimp only
    rw [if_neg hproduct]
  · rw [scaleRank, if_neg hreach, if_neg (rankOfRatio_ne_zero hsome), if_pos hpos]

namespace Numeral

variable {n : Numeral}

/-- What is read of a numeral is its kept digits, scaled. -/
theorem scaled?_eq (n : Numeral) : n.scaled? =
    (scaleRank (rankOfRatio n.kept.digits 1) n.kept.exponent).map (.ofRank n.negative) := rfl

/-- **What is read is a finite number of its sign.** -/
theorem finite_of_scaled? {x : Binary64} (h : n.scaled? = some x) :
    ∃ (rank : Nat) (hrank : rank < rankLimit), x = .finite n.negative rank hrank := by
  rw [scaled?_eq] at h
  obtain ⟨rank, hscaled, rfl⟩ := Option.map_eq_some_iff.mp h
  have hrank := lt_of_scaleRank (rankOfRatio_lt_rankLimit n.near_counter.1) hscaled
  exact ⟨rank, hrank, by rw [Binary64.ofRank, dif_pos hrank]⟩

/-- **A numeral below the end by three roundings is read.** -/
theorem exists_scaled_of_lt (h : n.magnitude.value < 1797693134862315 * 10 ^ 293) :
    ∃ x, n.scaled? = some x := by
  have hfactor := pow_pos roundingFactor_pos 3
  have hsquare := pow_pos roundingFactor_pos 2
  have hvalue : n.kept.value * roundingFactor ^ 2 < finiteEnd :=
    calc n.kept.value * roundingFactor ^ 2
        ≤ n.magnitude.value * roundingFactor ^ 1 * roundingFactor ^ 2 :=
          mul_le_mul_of_nonneg_right n.near_counter.2.le hsquare.le
      _ = n.magnitude.value * roundingFactor ^ 3 := by ring
      _ < 1797693134862315 * 10 ^ 293 * roundingFactor ^ 3 := mul_lt_mul_of_pos_right h hfactor
      _ < finiteEnd := roundings_from_end.1
  obtain ⟨rank, hscaled⟩ := scaleRank_isSome_of_lt hvalue
  exact ⟨_, by rw [scaled?_eq, hscaled, Option.map_some]⟩

/-- **A numeral beyond the end by three roundings is not.** -/
theorem scaled?_eq_none_of_le (h : 1797693134862317 * 10 ^ 293 ≤ n.magnitude.value) :
    n.scaled? = none := by
  obtain ⟨hdigits, hnear⟩ := n.near_counter
  have hvalue : finiteEnd * roundingFactor ^ 2 < n.kept.value := by
    apply lt_of_mul_lt_mul_right _ roundingFactor_pos.le
    calc finiteEnd * roundingFactor ^ 2 * roundingFactor
        = finiteEnd * roundingFactor ^ 3 := by ring
      _ < 1797693134862317 * 10 ^ 293 := roundings_from_end.2
      _ ≤ n.magnitude.value := h
      _ ≤ n.kept.value * roundingFactor ^ 1 := hnear.ge
      _ = n.kept.value * roundingFactor := by rw [pow_one]
  rw [scaled?_eq, scaleRank_eq_none_of_lt hdigits hvalue, Option.map_none]

end Numeral

end RuleEngine
