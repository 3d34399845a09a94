import Mathlib.Data.Nat.Cast.Order.Field
import RuleEngine.Proofs.DecimalRank
import RuleEngine.Proofs.RoundingError

/-!
# How many digits the shortest decimal has

The shortest decimal of a magnitude is looked for on one grid of decimals after another,
from the coarsest on.  A grid has a decimal for a rank as soon as its step is less than
the distance of the two midpoints around the magnitude: of the two neighbours on the grid
one must then be between them.  That happens within eighteen grids, for the ranks are not
closer than one part in `2 ^ 53`; and at the exponent `-324` at the latest, for they are
not closer than the least magnitude.

* `onGrid?_isSome` — a fine grid has a decimal for every rank;
* `topExponent_bounds` — the first grid is as coarse as the magnitude, and not coarser;
* `shortest_bounds` — the shortest decimal has at most eighteen digits, and its exponent
  is that of a finite number.
-/

namespace RuleEngine

/-! ## Decimals between two midpoints -/

namespace Decimal

/-- A decimal is not beyond the midpoint behind its rank. -/
theorem value_le_rankMidpoint (d : Decimal) : d.value ≤ rankMidpoint d.rank := by
  rw [value_eq_div]
  exact div_le_rankMidpoint (tenPow_pos _)

/-- A decimal before the midpoint behind a rank has no later rank. -/
theorem rank_le_of_lt {d : Decimal} {rank : Nat} (h : d.value < rankMidpoint rank) :
    d.rank ≤ rank := by
  rw [value_eq_div] at h
  exact rankOfRatio_le_of_lt (tenPow_pos _) h

end Decimal

/-- Midpoints ascend with their ranks. -/
theorem rankMidpoint_strictMono : StrictMono rankMidpoint := by
  intro a b h
  have hfirst := rankValue_strictMono h
  have hsecond := rankValue_strictMono (Nat.add_lt_add_right h 1)
  rw [rankMidpoint, rankMidpoint]
  linarith

theorem rankValue_lt_rankMidpoint (rank : Nat) : rankValue rank < rankMidpoint rank := by
  have hless := rankValue_strictMono (Nat.lt_add_one rank)
  rw [rankMidpoint]
  linarith

/-- A midpoint is before the next rank, as it is behind its own. -/
theorem rankMidpoint_lt_rankValue (rank : Nat) : rankMidpoint rank < rankValue (rank + 1) := by
  have hless := rankValue_strictMono (Nat.lt_add_one rank)
  rw [rankMidpoint]
  linarith

/-- A decimal between the midpoints around a rank reads back to it. -/
theorem Decimal.rank_eq_of_between {d : Decimal} {rank : Nat}
    (hlow : rankMidpoint rank < d.value) (hhigh : d.value < rankMidpoint (rank + 1)) :
    d.rank = rank + 1 := by
  apply Nat.le_antisymm (rank_le_of_lt hhigh)
  by_contra hbelow
  have hmono := rankMidpoint_strictMono.monotone (show d.rank ≤ rank by omega)
  exact absurd (hlow.trans_le d.value_le_rankMidpoint) (not_lt.mpr hmono)

/-! ## Grids -/

section

variable {tie : Tie} {rank : Nat} {exponent : Int}

/-- The number of grid steps that a magnitude has, rounded down. -/
def gridFloor (rank : Nat) (exponent : Int) : Nat :=
  unitsOfRank rank * tenPow (-exponent).toNat / (unitsInOne * tenPow exponent.toNat)

/-- A magnitude in grid steps is a quotient of natural numbers. -/
theorem gridRatio (rank : Nat) (exponent : Int) :
    ((unitsOfRank rank * tenPow (-exponent).toNat : Nat) : ℚ) /
      (unitsInOne * tenPow exponent.toNat : Nat) = rankValue rank / 10 ^ exponent := by
  have hunits : (unitsInOne : ℚ) ≠ 0 := unitsInOne_cast_pos.ne'
  have hten (n : Nat) : (tenPow n : ℚ) ≠ 0 := by exact_mod_cast (tenPow_pos n).ne'
  rw [Decimal.zpow_eq_div, rankValue]
  push_cast
  field_simp

/-- The grid steps of a magnitude do not go beyond it. -/
theorem gridFloor_mul_le (rank : Nat) (exponent : Int) :
    gridFloor rank exponent * (10 : ℚ) ^ exponent ≤ rankValue rank := by
  have hten : (0 : ℚ) < 10 ^ exponent := by positivity
  have hfloor : ((gridFloor rank exponent : Nat) : ℚ) ≤ rankValue rank / 10 ^ exponent := by
    rw [← gridRatio]
    exact Nat.cast_div_le
  exact (le_div_iff₀ hten).mp hfloor

/-- One grid step more goes beyond the magnitude. -/
theorem lt_gridFloor_mul (rank : Nat) (exponent : Int) :
    rankValue rank < (gridFloor rank exponent + 1 : Nat) * (10 : ℚ) ^ exponent := by
  have hten : (0 : ℚ) < 10 ^ exponent := by positivity
  have hden : 0 < unitsInOne * tenPow exponent.toNat :=
    Nat.mul_pos unitsInOne_pos (tenPow_pos _)
  have hfloor : rankValue rank / 10 ^ exponent < (gridFloor rank exponent + 1 : Nat) := by
    rw [← gridRatio, div_lt_iff₀ (by exact_mod_cast hden)]
    exact_mod_cast Nat.lt_mul_of_div_lt (Nat.lt_add_one (gridFloor rank exponent)) hden
  exact (div_lt_iff₀ hten).mp hfloor

/-- What stands on a grid for a rank is one of the two neighbours. -/
theorem of_onGrid? {d : Decimal} (h : onGrid? tie rank exponent = some d) :
    d.exponent = exponent ∧ d.digits ≤ gridFloor rank exponent + 1 := by
  unfold onGrid? at h
  dsimp only at h
  rw [← gridFloor] at h
  split at h
  · split at h
    · rw [← Option.some.inj h]
      rcases nearer_eq_or tie _ _ _ _ with heq | heq
      · rw [heq]
        exact ⟨rfl, Nat.le_succ _⟩
      · rw [heq]
        exact ⟨rfl, Nat.le_refl _⟩
    · rw [← Option.some.inj h]
      exact ⟨rfl, Nat.le_succ _⟩
  · split at h
    · rw [← Option.some.inj h]
      exact ⟨rfl, Nat.le_refl _⟩
    · cases h

/-- **A fine grid has a decimal for every rank:** its step is less than the distance of
the midpoints around the rank. -/
theorem onGrid?_isSome
    (h : rankMidpoint rank + 10 ^ exponent < rankMidpoint (rank + 1)) :
    (onGrid? tie (rank + 1) exponent).isSome := by
  have hfloor := gridFloor_mul_le (rank + 1) exponent
  have hceil := lt_gridFloor_mul (rank + 1) exponent
  have hbetween : (Decimal.rank ⟨gridFloor (rank + 1) exponent, exponent⟩ = rank + 1) ∨
      (Decimal.rank ⟨gridFloor (rank + 1) exponent + 1, exponent⟩ = rank + 1) := by
    rcases lt_or_ge (rankMidpoint rank) (gridFloor (rank + 1) exponent * (10 : ℚ) ^ exponent)
      with hbelow | habove
    · left
      exact Decimal.rank_eq_of_between hbelow
        (hfloor.trans_lt (rankValue_lt_rankMidpoint (rank + 1)))
    · right
      have hnext : ((gridFloor (rank + 1) exponent + 1 : Nat) : ℚ) * 10 ^ exponent =
          gridFloor (rank + 1) exponent * 10 ^ exponent + 10 ^ exponent := by
        push_cast
        ring
      apply Decimal.rank_eq_of_between
      · exact (rankMidpoint_lt_rankValue rank).trans hceil
      · rw [Decimal.value]
        dsimp only
        rw [hnext]
        linarith
  unfold onGrid?
  dsimp only
  rw [← gridFloor]
  rcases hbetween with hbelow | habove
  · rw [if_pos hbelow]
    split <;> rfl
  · rw [if_pos habove]
    split <;> rfl

end

/-! ## Fine grids -/

/-- A step of a part in `2 ^ 53` is fine. -/
theorem rankMidpoint_add_lt {rank : Nat} {exponent : Int}
    (h : 10 ^ exponent * (2 * runLength : ℚ) ≤ rankValue (rank + 1)) :
    rankMidpoint rank + 10 ^ exponent < rankMidpoint (rank + 1) := by
  have hpos : (0 : ℚ) < 2 * runLength := by norm_num [runLength]
  have hbefore := rankValue_step rank
  have hafter := rankValue_step (rank + 1)
  have hless := rankValue_strictMono (Nat.lt_add_one (rank + 1))
  have hscaled : 2 * runLength * ((rankValue rank + rankValue (rank + 1)) + 2 * 10 ^ exponent) <
      2 * runLength * (rankValue (rank + 1) + rankValue (rank + 1 + 1)) := by
    linarith
  have hsum := lt_of_mul_lt_mul_left hscaled hpos.le
  rw [rankMidpoint, rankMidpoint]
  linarith

/-- A step below the least magnitude is fine for every rank. -/
theorem rankMidpoint_add_least_lt (rank : Nat) :
    rankMidpoint rank + 10 ^ (-324 : Int) < rankMidpoint (rank + 1) := by
  have hunits : unitsOfRank rank + 2 ≤ unitsOfRank (rank + 1 + 1) := by
    have hfirst := unitsOfRank_lt_succ rank
    have hsecond := unitsOfRank_lt_succ (rank + 1)
    omega
  have hvalue : rankValue rank + 2 / unitsInOne ≤ rankValue (rank + 1 + 1) := by
    rw [rankValue, rankValue, ← add_div]
    apply div_le_div_of_nonneg_right _ unitsInOne_cast_pos.le
    exact_mod_cast hunits
  have hpower : (10 : ℚ) ^ (-324 : Int) < 1 / unitsInOne := by
    have hnat : unitsInOne < tenPow 324 := by decide +kernel
    rw [zpow_neg, ← one_div]
    apply one_div_lt_one_div_of_lt unitsInOne_cast_pos
    rw [show (324 : Int) = ((324 : Nat) : Int) from rfl, zpow_natCast, ← Decimal.tenPow_eq_pow]
    exact_mod_cast hnat
  have hdouble : (2 : ℚ) / unitsInOne = 2 * (1 / unitsInOne) := by ring
  rw [rankMidpoint, rankMidpoint]
  rw [hdouble] at hvalue
  linarith

/-! ## The first grid -/

/-- The first exponent, for magnitudes of so many binary digits, is neither too small nor
too large. -/
def topFits (log : Nat) : Bool :=
  let top : Int := ((log : Int) - 1073) * 30103 / 100000 + 1
  twoPow (log + 1) * tenPow (-top).toNat ≤ tenPow top.toNat * unitsInOne &&
    tenPow (top - 18).toNat * unitsInOne * (2 * runLength) ≤
      twoPow log * tenPow (-(top - 18)).toNat

theorem topFits_all : (List.range 2098).all topFits = true := by decide +kernel

/-- Finite magnitudes have less than 2098 binary digits. -/
theorem log2_unitsOfRank_lt {rank : Nat} (h : rank < rankLimit) :
    (unitsOfRank rank).log2 < 2098 := by
  have hlimit : unitsOfRank rankLimit = twoPow 2098 := by
    have hrun : unitsOfRank rankLimit = twoPow 1024 * unitsInOne := unitsOfRank_powerOfTwo 1024
    rw [hrun, unitsInOne, ← twoPow_add]
  have hless := unitsOfRank_strictMono h
  rw [hlimit] at hless
  by_contra hge
  have hpower : twoPow 2098 ≤ twoPow (unitsOfRank rank).log2 := twoPow_le (Nat.not_lt.mp hge)
  have hne : unitsOfRank rank ≠ 0 := by
    intro hzero
    rw [hzero] at hge
    exact hge (by decide)
  have hself : twoPow (unitsOfRank rank).log2 ≤ unitsOfRank rank := Nat.log2_self_le hne
  omega

/-- **A magnitude is below the power of ten above its first grid, and not below a part in
`10 ^ 18` of it.** -/
theorem topExponent_bounds {rank : Nat} (hne : rank ≠ 0) (h : rank < rankLimit) :
    rankValue rank < 10 ^ topExponent (unitsOfRank rank) ∧
      10 ^ (topExponent (unitsOfRank rank) - 18) * (2 * runLength : ℚ) ≤ rankValue rank := by
  have hfits := List.all_eq_true.mp topFits_all _
    (List.mem_range.mpr (log2_unitsOfRank_lt h))
  rw [topFits, Bool.and_eq_true, decide_eq_true_eq, decide_eq_true_eq, ← topExponent] at hfits
  obtain ⟨habove, hbelow⟩ := hfits
  have hpos : unitsOfRank rank ≠ 0 := by
    have hless := unitsOfRank_strictMono (Nat.pos_of_ne_zero hne)
    omega
  have hlog : unitsOfRank rank < twoPow ((unitsOfRank rank).log2 + 1) := Nat.lt_log2_self
  have hlog' : twoPow (unitsOfRank rank).log2 ≤ unitsOfRank rank := Nat.log2_self_le hpos
  have hten (n : Nat) : (0 : ℚ) < tenPow n := by exact_mod_cast tenPow_pos n
  constructor
  · have hlt : unitsOfRank rank * tenPow (-topExponent (unitsOfRank rank)).toNat <
        tenPow (topExponent (unitsOfRank rank)).toNat * unitsInOne :=
      Nat.lt_of_lt_of_le (Nat.mul_lt_mul_of_pos_right hlog (tenPow_pos _)) habove
    rw [Decimal.zpow_eq_div, rankValue, div_lt_div_iff₀ unitsInOne_cast_pos (hten _)]
    exact_mod_cast hlt
  · have hle : tenPow (topExponent (unitsOfRank rank) - 18).toNat * unitsInOne *
        (2 * runLength) ≤
        unitsOfRank rank * tenPow (-(topExponent (unitsOfRank rank) - 18)).toNat :=
      Nat.le_trans hbelow (Nat.mul_le_mul_right _ hlog')
    rw [Decimal.zpow_eq_div, rankValue, div_mul_eq_mul_div,
      div_le_div_iff₀ (hten _) unitsInOne_cast_pos]
    exact_mod_cast (by linarith)

/-! ## The search -/

/-- What a search from the largest on finds is not smaller than what could be found. -/
theorem exists_findSome?_of_pairwise {α : Type} {f : Int → Option α} {exponents : List Int}
    (hdescending : exponents.Pairwise fun a b => b < a) {e : Int} (hmem : e ∈ exponents)
    (h : (f e).isSome) :
    ∃ a ∈ exponents, e ≤ a ∧ ∃ d, exponents.findSome? f = some d ∧ f a = some d := by
  induction exponents with
  | nil => cases hmem
  | cons first rest ih =>
      obtain ⟨hfirst, hrest⟩ := List.pairwise_cons.mp hdescending
      cases hf : f first with
      | some d =>
          have hle : e ≤ first := by
            rcases List.mem_cons.mp hmem with rfl | hlater
            · exact le_refl _
            · exact (hfirst e hlater).le
          refine ⟨first, List.mem_cons_self, hle, d, ?_, hf⟩
          rw [List.findSome?_cons, hf]
      | none =>
          have hlater : e ∈ rest := by
            rcases List.mem_cons.mp hmem with rfl | hlater
            · rw [hf] at h
              cases h
            · exact hlater
          obtain ⟨a, ha, hle, d, hfound, hd⟩ := ih hrest hlater
          refine ⟨a, List.mem_cons_of_mem first ha, hle, d, ?_, hd⟩
          rw [List.findSome?_cons, hf]
          exact hfound

/-- On a grid that is no finer than eighteen places a magnitude has at most so many digits. -/
theorem gridFloor_lt {rank : Nat} {top exponent : Int} (hvalue : rankValue rank < 10 ^ top)
    (hle : top ≤ exponent + 18) : gridFloor rank exponent < tenPow 18 := by
  have hten : (0 : ℚ) < 10 ^ exponent := by positivity
  have hpower : (10 : ℚ) ^ (18 + exponent) = tenPow 18 * 10 ^ exponent := by
    rw [zpow_add₀ (by norm_num), Decimal.tenPow_eq_pow]
    rfl
  have hmul : (gridFloor rank exponent : ℚ) * 10 ^ exponent < tenPow 18 * 10 ^ exponent := by
    calc (gridFloor rank exponent : ℚ) * 10 ^ exponent ≤ rankValue rank := gridFloor_mul_le _ _
      _ < 10 ^ top := hvalue
      _ ≤ 10 ^ (18 + exponent) := zpow_le_zpow_right₀ (by norm_num) (by omega)
      _ = tenPow 18 * 10 ^ exponent := hpower
  exact_mod_cast lt_of_mul_lt_mul_right hmul hten.le

/-- The exponents of the grids that are tried, the largest first. -/
def gridExponents (top : Int) : List Int := (List.range 20).map fun (i : Nat) => top - 1 - (i : Int)

theorem gridExponents_descending (top : Int) : (gridExponents top).Pairwise fun a b => b < a := by
  rw [gridExponents, List.pairwise_map]
  exact List.pairwise_lt_range.imp fun hlt => by omega

/-- The grids are those of twenty exponents, from the highest digit down. -/
theorem mem_gridExponents_iff {top e : Int} :
    e ∈ gridExponents top ↔ top - 20 ≤ e ∧ e ≤ top - 1 := by
  rw [gridExponents, List.mem_map]
  constructor
  · rintro ⟨i, hi, rfl⟩
    have hlt := List.mem_range.mp hi
    omega
  · rintro ⟨hlow, hhigh⟩
    exact ⟨(top - 1 - e).toNat, List.mem_range.mpr (by omega), by omega⟩

/-- One of the grids that are tried is fine, and not below the least exponent. -/
theorem exists_fine_grid (tie : Tie) {rank : Nat} (h : rank + 1 < rankLimit) :
    ∃ e : Int, topExponent (unitsOfRank (rank + 1)) - 18 ≤ e ∧ -324 ≤ e ∧
      e ≤ topExponent (unitsOfRank (rank + 1)) - 1 ∧ (onGrid? tie (rank + 1) e).isSome := by
  obtain ⟨-, hbelow⟩ := topExponent_bounds (Nat.succ_ne_zero rank) h
  have hleast : -323 ≤ topExponent (unitsOfRank (rank + 1)) := by
    rw [topExponent]
    omega
  rcases le_or_gt (-324) (topExponent (unitsOfRank (rank + 1)) - 18) with hwithin | hdeep
  · exact ⟨_, le_refl _, hwithin, by omega, onGrid?_isSome (rankMidpoint_add_lt hbelow)⟩
  · exact ⟨-324, hdeep.le, le_refl _, by omega,
      onGrid?_isSome (rankMidpoint_add_least_lt rank)⟩

/-- The shortest decimal is found on one of the first eighteen grids. -/
theorem shortest_onGrid? (tie : Tie) {rank : Nat} (h : rank + 1 < rankLimit) :
    ∃ e : Int, topExponent (unitsOfRank (rank + 1)) - 18 ≤ e ∧ -324 ≤ e ∧
      e ≤ topExponent (unitsOfRank (rank + 1)) - 1 ∧
      onGrid? tie (rank + 1) e = some (shortest tie (rank + 1)) := by
  obtain ⟨e, hlow, hleast, hhigh, hsome⟩ := exists_fine_grid tie h
  obtain ⟨a, ha, hle, d, hfound, hd⟩ := exists_findSome?_of_pairwise
    (gridExponents_descending _) (mem_gridExponents_iff.mpr ⟨by omega, hhigh⟩) hsome
  have hshortest : shortest tie (rank + 1) = d := by
    rw [shortest, if_neg (Nat.succ_ne_zero rank)]
    dsimp only
    rw [← gridExponents, hfound, Option.getD_some]
  obtain ⟨-, hlast⟩ := mem_gridExponents_iff.mp ha
  rw [hshortest]
  exact ⟨a, by omega, by omega, hlast, hd⟩

/-- **The shortest decimal has at most eighteen digits,** or it is the power of ten above
them, and the exponent of a finite number. -/
theorem shortest_bounds (tie : Tie) {rank : Nat} (h : rank < rankLimit) :
    (shortest tie rank).digits ≤ tenPow 18 ∧ -324 ≤ (shortest tie rank).exponent ∧
      (shortest tie rank).exponent ≤ 308 := by
  cases rank with
  | zero =>
      have hzero : shortest tie 0 = ⟨0, 0⟩ := rfl
      rw [hzero]
      exact ⟨Nat.zero_le _, by decide, by decide⟩
  | succ rank =>
      have hne : rank + 1 ≠ 0 := Nat.succ_ne_zero rank
      obtain ⟨e, hlow, hleast, hhigh, hgrid⟩ := shortest_onGrid? tie h
      obtain ⟨hexponent, hdigits⟩ := of_onGrid? hgrid
      obtain ⟨habove, -⟩ := topExponent_bounds hne h
      have hfloor : gridFloor (rank + 1) e < tenPow 18 := gridFloor_lt habove (by omega)
      have htop : topExponent (unitsOfRank (rank + 1)) ≤ 309 := by
        have hlog := log2_unitsOfRank_lt h
        rw [topExponent]
        omega
      rw [hexponent]
      exact ⟨by omega, hleast, by omega⟩

end RuleEngine
