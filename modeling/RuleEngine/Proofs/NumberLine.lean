import Mathlib.Algebra.Order.Field.Basic
import Mathlib.Algebra.Order.Ring.Int
import Mathlib.Data.Int.ConditionallyCompleteOrder
import Mathlib.Data.Rat.Cast.Order
import Mathlib.Order.Interval.Set.Defs
import Mathlib.Order.Monotone.Odd
import Mathlib.Order.WithBotTop
import RuleEngine.Number.Binary64
import RuleEngine.Proofs.Rounding

/-!
# The number line

The order of binary64 numbers is that of their places, and places are in the order
of the numbers that stand there.  To say so, and to say it of integers as well, all
of them are counted in one unit, the least positive magnitude: a place holds a whole
number of units, an integer is one, and infinity comes after `2 ^ 1024`.

* `unitsAt`, `unitsAt_strictMono` — the units at a place;
* `placeOfInt` — the place that an integer is rounded to; `le_placeOfInt` and
  `placeOfInt_le` say that no place lies between, and `placeOfInt_nearest` that none
  is nearer;
* `Extended`, `valueOfUnits` — rational numbers with two infinities, and the one
  that so many units are;
* `cmp_valueOfUnits` — counting in units keeps the order.
-/

namespace RuleEngine

/-! ## Places -/

/-- The number at a place, in units of the least magnitude. -/
def unitsAt (place : Int) : Int := place.sign * unitsOfRank place.natAbs

/-- Above zero the number at a place is the magnitude of the rank. -/
theorem unitsAt_natCast (rank : Nat) : unitsAt rank = unitsOfRank rank := by
  rcases Nat.eq_zero_or_pos rank with rfl | hpos
  · rfl
  · rw [unitsAt, Int.sign_eq_one_of_pos (by omega), Int.natAbs_natCast, Int.one_mul]

theorem unitsAt_neg (place : Int) : unitsAt (-place) = -unitsAt place := by
  simp [unitsAt]

theorem unitsAt_zero : unitsAt 0 = 0 := rfl

/-- A rank with a sign is the place of its magnitude with that sign. -/
theorem unitsAt_signed (negative : Bool) (rank : Nat) :
    unitsAt (signed negative rank) = signed negative (unitsOfRank rank) := by
  cases negative with
  | false => exact unitsAt_natCast rank
  | true => rw [signed_true, signed_true, unitsAt_neg, unitsAt_natCast]

/-- **Places are in the order of the numbers there.** -/
theorem unitsAt_strictMono : StrictMono unitsAt := by
  refine strictMono_of_odd_strictMonoOn_nonneg unitsAt_neg ?_
  intro p hp q hq hlt
  obtain ⟨r, rfl⟩ := Int.eq_ofNat_of_zero_le hp
  obtain ⟨s, rfl⟩ := Int.eq_ofNat_of_zero_le hq
  rw [unitsAt_natCast, unitsAt_natCast]
  exact_mod_cast unitsOfRank_strictMono (by exact_mod_cast hlt)

/-! ## Integers -/

theorem natCast_unitsInOne_pos : (0 : Int) < unitsInOne := by
  exact_mod_cast unitsInOne_pos

/-- Integers counted in units are in the order of the integers. -/
theorem compare_mul_unitsInOne (i j : Int) :
    compare (i * unitsInOne) (j * unitsInOne) = compare i j := by
  have hmono : StrictMono fun n : Int => n * (unitsInOne : Int) :=
    fun _ _ hlt => Int.mul_lt_mul_of_pos_right hlt natCast_unitsInOne_pos
  rw [← cmp_eq_compare, ← cmp_eq_compare, hmono.cmp_map_eq]

/-- The place that an integer is rounded to. -/
def placeOfInt (i : Int) : Int := i.sign * rankOfRatio i.natAbs 1

/-- A natural number is rounded to its rank. -/
theorem placeOfInt_natCast (n : Nat) : placeOfInt n = rankOfRatio n 1 := by
  rcases Nat.eq_zero_or_pos n with rfl | hpos
  · simp [placeOfInt, rankOfRatio_zero]
  · rw [placeOfInt, Int.sign_eq_one_of_pos (by omega), Int.natAbs_natCast, Int.one_mul]

theorem placeOfInt_neg (i : Int) : placeOfInt (-i) = -placeOfInt i := by
  simp [placeOfInt]

/-- No place is nearer to a natural number than the one that it is rounded to. -/
theorem natCast_nearest (n : Nat) (p : Int) :
    (unitsAt (placeOfInt n) - n * unitsInOne).natAbs ≤
      (unitsAt p - n * unitsInOne).natAbs := by
  have hdist (rank : Nat) :
      Nat.dist (n * unitsInOne) (unitsOfRank rank * 1) =
        (unitsAt rank - n * unitsInOne).natAbs := by
    rw [unitsAt_natCast, Nat.mul_one, ← Int.natCast_mul, Nat.dist]
    omega
  have hnearest (rank : Nat) := rankOfRatio_nearest n Nat.one_pos rank
  simp only [hdist] at hnearest
  rw [placeOfInt_natCast]
  rcases Int.le_total 0 p with hpos | hneg
  · obtain ⟨rank, rfl⟩ := Int.eq_ofNat_of_zero_le hpos
    exact hnearest rank
  · -- on the far side of zero nothing is nearer than zero
    have hfar : unitsAt p ≤ 0 := unitsAt_strictMono.monotone hneg
    have hle := hnearest 0
    have hn : 0 ≤ (n : Int) * unitsInOne :=
      Int.mul_nonneg (Int.natCast_nonneg n) (Int.natCast_nonneg _)
    rw [Int.natCast_zero, unitsAt_zero] at hle
    omega

/-- **No place is nearer to an integer** than the one that it is rounded to. -/
theorem placeOfInt_nearest (i p : Int) :
    (unitsAt (placeOfInt i) - i * unitsInOne).natAbs ≤
      (unitsAt p - i * unitsInOne).natAbs := by
  obtain ⟨n, rfl | rfl⟩ := i.eq_nat_or_neg
  · exact natCast_nearest n p
  · have hnearest := natCast_nearest n (-p)
    rw [unitsAt_neg] at hnearest
    rw [placeOfInt_neg, unitsAt_neg, Int.neg_mul]
    omega

/-- A place that is not above a natural number is not above its rank. -/
theorem le_rank_of_unitsAt_le {p : Int} {n : Nat} (h : unitsAt p ≤ n * unitsInOne) :
    p ≤ rankOfRatio n 1 := by
  rcases Int.le_total p 0 with hneg | hpos
  · omega
  · obtain ⟨r, rfl⟩ := Int.eq_ofNat_of_zero_le hpos
    rw [unitsAt_natCast] at h
    have hle : unitsOfRank r * 1 ≤ n * unitsInOne := by
      rw [Nat.mul_one]
      exact_mod_cast h
    exact_mod_cast le_rankOfRatio Nat.one_pos hle

/-- A place that is not below a natural number is not below its rank. -/
theorem rank_le_of_le_unitsAt {p : Int} {n : Nat} (h : n * unitsInOne ≤ unitsAt p) :
    rankOfRatio n 1 ≤ p := by
  have hpos : 0 ≤ p := by
    rw [← unitsAt_strictMono.le_iff_le, unitsAt_zero]
    exact Int.le_trans (Int.mul_nonneg (Int.natCast_nonneg n) (Int.natCast_nonneg _)) h
  obtain ⟨r, rfl⟩ := Int.eq_ofNat_of_zero_le hpos
  rw [unitsAt_natCast] at h
  have hle : n * unitsInOne ≤ unitsOfRank r * 1 := by
    rw [Nat.mul_one]
    exact_mod_cast h
  exact_mod_cast rankOfRatio_le Nat.one_pos hle

/-- A place that is not above an integer is not above the place that it is rounded
to. -/
theorem le_placeOfInt {p i : Int} (h : unitsAt p ≤ i * unitsInOne) : p ≤ placeOfInt i := by
  obtain ⟨n, rfl | rfl⟩ := i.eq_nat_or_neg
  · rw [placeOfInt_natCast]
    exact le_rank_of_unitsAt_le h
  · have hneg : (n : Int) * unitsInOne ≤ unitsAt (-p) := by
      rw [unitsAt_neg]
      rw [Int.neg_mul] at h
      omega
    have hle := rank_le_of_le_unitsAt hneg
    rw [placeOfInt_neg, placeOfInt_natCast]
    omega

/-- A place that is not below an integer is not below the place that it is rounded to. -/
theorem placeOfInt_le {p i : Int} (h : i * unitsInOne ≤ unitsAt p) : placeOfInt i ≤ p := by
  have hneg : unitsAt (-p) ≤ -i * unitsInOne := by
    rw [unitsAt_neg, Int.neg_mul]
    omega
  have hle := le_placeOfInt hneg
  rw [placeOfInt_neg] at hle
  omega

/-- **Rounding an integer keeps its order** against every place but the one that it
is rounded to. -/
theorem compare_placeOfInt {p i : Int} (h : p ≠ placeOfInt i) :
    compare (placeOfInt i) p = compare (i * unitsInOne) (unitsAt p) := by
  rcases Int.lt_trichotomy (i * unitsInOne) (unitsAt p) with hlt | heq | hgt
  · have hle := placeOfInt_le (Int.le_of_lt hlt)
    rw [compare_lt_iff_lt.mpr hlt, compare_lt_iff_lt]
    omega
  · exact absurd (Int.le_antisymm (le_placeOfInt heq.ge) (placeOfInt_le heq.le)) h
  · have hle := le_placeOfInt (Int.le_of_lt hgt)
    rw [compare_gt_iff_gt.mpr hgt, compare_gt_iff_gt]
    omega

/-- Integers are rounded to integers. -/
theorem unitsInOne_dvd_placeOfInt (i : Int) : (unitsInOne : Int) ∣ unitsAt (placeOfInt i) := by
  obtain ⟨n, rfl | rfl⟩ := i.eq_nat_or_neg
  · rw [placeOfInt_natCast, unitsAt_natCast]
    exact_mod_cast unitsInOne_dvd_rankOfRatio n
  · rw [placeOfInt_neg, unitsAt_neg, placeOfInt_natCast, unitsAt_natCast]
    exact (Int.dvd_neg).mpr (by exact_mod_cast unitsInOne_dvd_rankOfRatio n)

/-- Integers up to `2 ^ 53` are not changed. -/
theorem unitsAt_placeOfInt {i : Int} (h : i.natAbs ≤ 2 ^ 53) :
    unitsAt (placeOfInt i) = i * unitsInOne := by
  obtain ⟨n, rfl | rfl⟩ := i.eq_nat_or_neg
  · rw [placeOfInt_natCast, unitsAt_natCast, unitsOfRank_rankOfRatio (by simpa using h)]
    push_cast
    rfl
  · rw [placeOfInt_neg, unitsAt_neg, placeOfInt_natCast, unitsAt_natCast,
      unitsOfRank_rankOfRatio (by simpa using h), Int.neg_mul]
    push_cast
    rfl

/-- An integer up to a power of two is not rounded beyond it. -/
theorem rankOfRatio_le_powerOfTwo {n k : Nat} (h : n ≤ twoPow k) :
    rankOfRatio n 1 ≤ (1023 + k) * runLength := by
  apply rankOfRatio_le Nat.one_pos
  rw [unitsOfRank_powerOfTwo, Nat.mul_one]
  exact Nat.mul_le_mul_right _ h

/-- Rounding the magnitude of an integer and putting its sign back is rounding the integer. -/
theorem signed_rankOfRatio (i : Int) :
    signed (i < 0) (rankOfRatio i.natAbs 1) = placeOfInt i := by
  rcases lt_or_ge i 0 with hneg | hpos
  · rw [placeOfInt, Int.sign_eq_neg_one_of_neg hneg, decide_eq_true hneg, signed_true,
      Int.neg_one_mul]
  · obtain ⟨n, rfl⟩ := Int.eq_ofNat_of_zero_le hpos
    rw [placeOfInt_natCast, decide_eq_false (Int.not_lt.mpr hpos), Int.natAbs_natCast,
      signed_false]

/-- An integer within a power of two on either side is not rounded out of there. -/
theorem natAbs_placeOfInt_le {i : Int} {k : Nat} (h : i.natAbs ≤ twoPow k) :
    (placeOfInt i).natAbs ≤ (1023 + k) * runLength := by
  rw [← signed_rankOfRatio, natAbs_signed]
  exact rankOfRatio_le_powerOfTwo h

/-! ## Values -/

/-- Rational numbers with an infinity at either end. -/
abbrev Extended := WithBot (WithTop ℚ)

/-- The units that infinity stands for: those of `2 ^ 1024`. -/
def infiniteUnits : Int := unitsOfRank rankLimit

/-- The number that so many units are. -/
def valueOfUnits (units : Int) : Extended :=
  if infiniteUnits ≤ units then ⊤
  else if units ≤ -infiniteUnits then ⊥
  else ((units / unitsInOne : ℚ) : Extended)

/-- Infinity stands where the first integer stands that is too large. -/
theorem infiniteUnits_eq : infiniteUnits = twoPow 1024 * unitsInOne := by
  have hlimit : rankLimit = (1023 + 1024) * runLength := by decide
  rw [infiniteUnits, hlimit, unitsOfRank_powerOfTwo]
  push_cast
  rfl

/-- Between the infinities the value of some units is a rational number. -/
theorem valueOfUnits_finite {units : Int} (hlow : -infiniteUnits < units)
    (hhigh : units < infiniteUnits) :
    valueOfUnits units = ((units / unitsInOne : ℚ) : Extended) := by
  rw [valueOfUnits, if_neg (Int.not_le.mpr hhigh), if_neg (Int.not_le.mpr hlow)]

/-- **Counting in units keeps the order,** from one infinity to the other. -/
theorem valueOfUnits_strictMonoOn :
    StrictMonoOn valueOfUnits (Set.Icc (-infiniteUnits) infiniteUnits) := by
  intro a ha b hb hlt
  have hhigh : a < infiniteUnits := Int.lt_of_lt_of_le hlt hb.2
  have hlow : -infiniteUnits < b := Int.lt_of_le_of_lt ha.1 hlt
  have htop : infiniteUnits ≤ b → valueOfUnits b = ⊤ := fun h => if_pos h
  have hbot : a ≤ -infiniteUnits → valueOfUnits a = ⊥ := by
    intro h
    rw [valueOfUnits, if_neg (Int.not_le.mpr hhigh), if_pos h]
  rcases lt_or_ge (-infiniteUnits) a with hlow' | hend
  · rw [valueOfUnits_finite hlow' hhigh]
    rcases lt_or_ge b infiniteUnits with hhigh' | hend'
    · rw [valueOfUnits_finite hlow hhigh']
      have hquotient : (a / unitsInOne : ℚ) < b / unitsInOne := by
        have hpos : (0 : ℚ) < unitsInOne := by exact_mod_cast unitsInOne_pos
        exact (div_lt_div_iff_of_pos_right hpos).mpr (by exact_mod_cast hlt)
      exact WithBot.coe_strictMono (WithTop.coe_strictMono hquotient)
    · rw [htop hend']
      exact WithBot.coe_lt_coe.mpr (WithTop.coe_lt_top _)
  · rw [hbot hend]
    rcases lt_or_ge b infiniteUnits with hhigh' | hend'
    · rw [valueOfUnits_finite hlow hhigh']
      exact WithBot.bot_lt_coe _
    · rw [htop hend']
      exact bot_lt_top

/-- Integers below `2 ^ 1024` are finite numbers. -/
theorem mul_unitsInOne_lt {i : Int} (h : i.natAbs < twoPow 1024) :
    -infiniteUnits < i * unitsInOne ∧ i * unitsInOne < infiniteUnits := by
  rw [infiniteUnits_eq, ← Int.neg_mul]
  exact ⟨Int.mul_lt_mul_of_pos_right (by omega) natCast_unitsInOne_pos,
    Int.mul_lt_mul_of_pos_right (by omega) natCast_unitsInOne_pos⟩

/-- The value of an integer in units is this integer. -/
theorem valueOfUnits_mul {i : Int} (h : i.natAbs < twoPow 1024) :
    valueOfUnits (i * unitsInOne) = ((i : ℚ) : Extended) := by
  obtain ⟨hlow, hhigh⟩ := mul_unitsInOne_lt h
  have hne : (unitsInOne : ℚ) ≠ 0 := by exact_mod_cast unitsInOne_pos.ne'
  rw [valueOfUnits_finite hlow hhigh]
  congr 2
  push_cast
  exact mul_div_cancel_right₀ _ hne

theorem mul_unitsInOne_mem {i : Int} (h : i.natAbs < twoPow 1024) :
    i * unitsInOne ∈ Set.Icc (-infiniteUnits) infiniteUnits := by
  obtain ⟨hlow, hhigh⟩ := mul_unitsInOne_lt h
  exact ⟨Int.le_of_lt hlow, Int.le_of_lt hhigh⟩

/-- No place is beyond the infinities. -/
theorem unitsAt_mem {p : Int} (h : p.natAbs ≤ rankLimit) :
    unitsAt p ∈ Set.Icc (-infiniteUnits) infiniteUnits := by
  rw [infiniteUnits, ← unitsAt_natCast, ← unitsAt_neg]
  exact ⟨unitsAt_strictMono.monotone (by omega), unitsAt_strictMono.monotone (by omega)⟩

/-- **Values are in the order of their units.** -/
theorem cmp_valueOfUnits {a b : Int} (ha : a ∈ Set.Icc (-infiniteUnits) infiniteUnits)
    (hb : b ∈ Set.Icc (-infiniteUnits) infiniteUnits) :
    cmp (valueOfUnits a) (valueOfUnits b) = compare a b := by
  rw [valueOfUnits_strictMonoOn.cmp_map_eq ha hb, cmp_eq_compare]

end RuleEngine
