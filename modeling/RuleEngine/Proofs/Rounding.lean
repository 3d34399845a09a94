import Mathlib.Data.Nat.Dist
import Mathlib.Order.Monotone.Basic
import RuleEngine.Number.Binary64

/-!
# Rounding goes to the nearest rank

The ranks stand in **runs**.  Within the run of a shift `s` the magnitudes are the
multiples `m * 2 ^ s` of one step, with `2 ^ 52 ≤ m ≤ 2 ^ 53`, or `m` from zero on
in the first run; the last multiple of a run is the first of the next one.  So a
rank is a run and a multiple, and a quotient is rounded by finding its run and the
nearest multiple there.  No magnitude of another run is nearer, because the
quotient itself lies within the run.

* `unitsOfRank_run`, `exists_run` — the magnitudes of a run;
* `unitsOfRank_strictMono` — ranks are in the order of their magnitudes;
* `rankOfRatio_nearest` — no rank is nearer to a quotient than the one it is
  rounded to;
* `le_rankOfRatio`, `rankOfRatio_le` — rounding does not cross a rank;
* `unitsInOne_dvd_rankOfRatio`, `unitsOfRank_rankOfRatio` — whole numbers are
  rounded to whole numbers, those up to `2 ^ 53` to themselves.
-/

namespace RuleEngine

/-! ## Runs of ranks -/

/-- The magnitudes of a run are the multiples of its step. -/
theorem unitsOfRank_run {shift multiple : Nat} (hlow : shift = 0 ∨ runLength ≤ multiple)
    (hhigh : multiple ≤ 2 * runLength) :
    unitsOfRank (shift * runLength + multiple) = multiple * twoPow shift := by
  have hpos : 0 < runLength := by decide
  have hdiv : (shift * runLength + multiple) / runLength = shift + multiple / runLength := by
    rw [Nat.add_comm, Nat.add_mul_div_right _ _ hpos, Nat.add_comm]
  have hmod : (shift * runLength + multiple) % runLength = multiple % runLength :=
    Nat.mul_add_mod' shift runLength multiple
  rw [unitsOfRank, hdiv, hmod]
  -- the multiple is below the run (then it is the first run), in it, or at its end
  rcases Nat.lt_or_ge multiple runLength with hbelow | hfrom
  · have hshift : shift = 0 := hlow.resolve_right (Nat.not_le.mpr hbelow)
    rw [hshift, Nat.div_eq_of_lt hbelow, if_pos rfl, twoPow_zero]
    omega
  · rcases Nat.lt_or_ge multiple (2 * runLength) with hwithin | hend
    · have hone : multiple / runLength = 1 :=
        Nat.div_eq_of_lt_le (by omega) (by omega)
      have hrest : multiple % runLength = multiple - runLength := by
        rw [Nat.mod_eq_sub_mod hfrom, Nat.mod_eq_of_lt (by omega)]
      rw [hone, hrest, if_neg (by omega), Nat.add_sub_cancel, Nat.add_sub_cancel' hfrom]
    · have heq : multiple = 2 * runLength := Nat.le_antisymm hhigh hend
      rw [heq, Nat.mul_div_cancel _ hpos, Nat.mul_mod_left, if_neg (by omega),
        show shift + 2 - 1 = shift + 1 from rfl, twoPow_succ]
      simp only [Nat.add_zero]
      rw [← Nat.mul_assoc, Nat.mul_right_comm, Nat.mul_comm runLength 2]

/-- Every rank stands in a run, before the end of it. -/
theorem exists_run (rank : Nat) : ∃ shift multiple, rank = shift * runLength + multiple ∧
    (shift = 0 ∨ runLength ≤ multiple) ∧ multiple < 2 * runLength := by
  refine ⟨rank / runLength - 1, rank - (rank / runLength - 1) * runLength, ?_, ?_, ?_⟩
  all_goals
    simp only [runLength]
    omega

/-- The next rank is one step further. -/
theorem unitsOfRank_lt_succ (rank : Nat) : unitsOfRank rank < unitsOfRank (rank + 1) := by
  obtain ⟨shift, multiple, rfl, hlow, hhigh⟩ := exists_run rank
  have hnext : unitsOfRank (shift * runLength + (multiple + 1)) =
      (multiple + 1) * twoPow shift :=
    unitsOfRank_run (by omega) hhigh
  rw [Nat.add_assoc, hnext, unitsOfRank_run hlow (Nat.le_of_lt hhigh)]
  exact Nat.mul_lt_mul_of_pos_right (Nat.lt_succ_self multiple) (twoPow_pos shift)

/-- **Ranks are in the order of their magnitudes.** -/
theorem unitsOfRank_strictMono : StrictMono unitsOfRank :=
  strictMono_nat_of_lt_succ unitsOfRank_lt_succ

theorem unitsOfRank_zero : unitsOfRank 0 = 0 := rfl

/-! ## The nearest multiple -/

/-- The nearest integer is the integral part of a quotient or the next one. -/
theorem nearestInteger_eq_or (num den : Nat) :
    (nearestInteger num den = num / den ∧ 2 * (num % den) ≤ den) ∨
      (nearestInteger num den = num / den + 1 ∧ den ≤ 2 * (num % den)) := by
  unfold nearestInteger
  dsimp only
  split
  · exact .inl ⟨rfl, by omega⟩
  · split
    · exact .inr ⟨rfl, by omega⟩
    · split
      · exact .inl ⟨rfl, by omega⟩
      · exact .inr ⟨rfl, by omega⟩

/-- The nearest multiple is not further away than half a step. -/
theorem dist_nearestInteger_le {num den : Nat} (hden : 0 < den) :
    2 * Nat.dist num (nearestInteger num den * den) ≤ den := by
  have hdivmod : num / den * den + num % den = num := Nat.div_add_mod' num den
  have hlt : num % den < den := Nat.mod_lt num hden
  unfold Nat.dist
  rcases nearestInteger_eq_or num den with ⟨heq, hrest⟩ | ⟨heq, hrest⟩
  · rw [heq]
    omega
  · have hnext : (num / den + 1) * den = num / den * den + den := Nat.add_one_mul _ _
    rw [heq, hnext]
    omega

/-- An integer up to a quotient is not above the integer nearest to it. -/
theorem le_nearestInteger {num den least : Nat} (hden : 0 < den) (h : least * den ≤ num) :
    least ≤ nearestInteger num den := by
  have hdiv : least ≤ num / den := (Nat.le_div_iff_mul_le hden).mpr h
  rcases nearestInteger_eq_or num den with ⟨heq, -⟩ | ⟨heq, -⟩ <;> omega

/-- An integer above a quotient is not below the integer nearest to it. -/
theorem nearestInteger_le {num den most : Nat} (hden : 0 < den) (h : num < most * den) :
    nearestInteger num den ≤ most := by
  have hdiv : num / den < most := (Nat.div_lt_iff_lt_mul hden).mpr h
  rcases nearestInteger_eq_or num den with ⟨heq, -⟩ | ⟨heq, -⟩ <;> omega

/-! ## The run of a quotient -/

/-- The shift that rounding takes for a quotient. -/
def shiftOfRatio (num den : Nat) : Nat := (num * unitsInOne / den).log2 - 52

/-- A run with a shift starts at a power of two. -/
theorem runLength_mul_twoPow (shift : Nat) : runLength * twoPow shift = twoPow (52 + shift) :=
  (twoPow_add 52 shift).symm

variable (num : Nat) {den : Nat}

/-- A quotient is below the end of its run. -/
theorem lt_runEnd (hden : 0 < den) :
    num * unitsInOne < 2 * runLength * (den * twoPow (shiftOfRatio num den)) := by
  have hlog : num * unitsInOne / den < twoPow ((num * unitsInOne / den).log2 + 1) :=
    Nat.lt_log2_self
  have hpow : twoPow ((num * unitsInOne / den).log2 + 1) ≤
      2 * runLength * twoPow (shiftOfRatio num den) := by
    rw [Nat.mul_assoc, runLength_mul_twoPow, Nat.mul_comm 2, ← twoPow_succ]
    exact Nat.pow_le_pow_right (by decide) (by unfold shiftOfRatio; omega)
  have hlt : num * unitsInOne / den < 2 * runLength * twoPow (shiftOfRatio num den) :=
    Nat.lt_of_lt_of_le hlog hpow
  have hmul := (Nat.div_lt_iff_lt_mul hden).mp hlt
  rwa [Nat.mul_assoc, Nat.mul_comm _ den] at hmul

/-- A quotient is not below the start of its run, unless it is the first run. -/
theorem runStart_le (hden : 0 < den) : shiftOfRatio num den = 0 ∨
    runLength * (den * twoPow (shiftOfRatio num den)) ≤ num * unitsInOne := by
  rcases Nat.eq_zero_or_pos (shiftOfRatio num den) with hzero | hpos
  · exact .inl hzero
  · right
    have hlog : (num * unitsInOne / den).log2 = 52 + shiftOfRatio num den := by
      unfold shiftOfRatio at hpos ⊢
      omega
    have hne : num * unitsInOne / den ≠ 0 := by
      intro hzero
      rw [hzero, Nat.log2_zero] at hlog
      omega
    have hle : runLength * twoPow (shiftOfRatio num den) ≤ num * unitsInOne / den := by
      rw [runLength_mul_twoPow, ← hlog]
      exact Nat.log2_self_le hne
    have hmul := (Nat.le_div_iff_mul_le hden).mp hle
    rwa [Nat.mul_assoc, Nat.mul_comm _ den] at hmul

/-- **A quotient is rounded within its run:** to the nearest multiple of the step
there. -/
theorem rankOfRatio_run (hden : 0 < den) : ∃ shift multiple,
    rankOfRatio num den = shift * runLength + multiple ∧
    (shift = 0 ∨ runLength * (den * twoPow shift) ≤ num * unitsInOne) ∧
    num * unitsInOne < 2 * runLength * (den * twoPow shift) ∧
    (shift = 0 ∨ runLength ≤ multiple) ∧ multiple ≤ 2 * runLength ∧
    2 * Nat.dist (num * unitsInOne) (multiple * (den * twoPow shift)) ≤
      den * twoPow shift := by
  have hstep : 0 < den * twoPow (shiftOfRatio num den) := Nat.mul_pos hden (twoPow_pos _)
  have hend := lt_runEnd num hden
  have hstart := runStart_le num hden
  exact ⟨shiftOfRatio num den,
    nearestInteger (num * unitsInOne) (den * twoPow (shiftOfRatio num den)), rfl, hstart, hend,
    hstart.imp_right (le_nearestInteger hstep), nearestInteger_le hstep hend,
    dist_nearestInteger_le hstep⟩

/-- The magnitude of a multiple of a run, times a denominator. -/
theorem unitsOfRank_run_mul (den : Nat) {shift multiple : Nat}
    (hlow : shift = 0 ∨ runLength ≤ multiple) (hhigh : multiple ≤ 2 * runLength) :
    unitsOfRank (shift * runLength + multiple) * den = multiple * (den * twoPow shift) := by
  rw [unitsOfRank_run hlow hhigh, Nat.mul_assoc, Nat.mul_comm (twoPow shift)]

/-- Magnitudes over one denominator are in the order of their ranks. -/
theorem unitsOfRank_mul_mono (den : Nat) {lower upper : Nat} (h : lower ≤ upper) :
    unitsOfRank lower * den ≤ unitsOfRank upper * den :=
  Nat.mul_le_mul_right den (unitsOfRank_strictMono.monotone h)

/-- A rank before that of a multiple is a step before it; but before the start of the
run, where the steps are narrower, the quotient is not. -/
theorem before_multiple {shift multiple rank : Nat}
    (hstart : shift = 0 ∨ runLength * (den * twoPow shift) ≤ num * unitsInOne)
    (hlow : shift = 0 ∨ runLength ≤ multiple) (hhigh : multiple ≤ 2 * runLength)
    (h : rank < shift * runLength + multiple) :
    unitsOfRank rank * den + den * twoPow shift ≤ multiple * (den * twoPow shift) ∨
      unitsOfRank rank * den ≤ multiple * (den * twoPow shift) ∧
        multiple * (den * twoPow shift) ≤ num * unitsInOne := by
  by_cases hfirst : shift = 0 ∨ runLength < multiple
  · left
    have hpos : 0 < multiple := by
      rcases hfirst with rfl | hfirst
      · rw [Nat.zero_mul, Nat.zero_add] at h
        omega
      · omega
    have hle : rank ≤ shift * runLength + (multiple - 1) := by omega
    have hbefore := unitsOfRank_mul_mono den hle
    rw [unitsOfRank_run_mul den (by omega) (by omega)] at hbefore
    have hstep : multiple * (den * twoPow shift) =
        (multiple - 1) * (den * twoPow shift) + den * twoPow shift := by
      rw [← Nat.add_one_mul, Nat.sub_add_cancel hpos]
    omega
  · right
    have hmultiple : multiple = runLength := by omega
    have hbefore := unitsOfRank_mul_mono den (Nat.le_of_lt h)
    rw [unitsOfRank_run_mul den hlow hhigh] at hbefore
    refine ⟨hbefore, ?_⟩
    rw [hmultiple]
    omega

/-- A rank behind that of a multiple is a step behind it; but behind the end of the
run the quotient is not. -/
theorem behind_multiple {shift multiple rank : Nat}
    (hend : num * unitsInOne < 2 * runLength * (den * twoPow shift))
    (hlow : shift = 0 ∨ runLength ≤ multiple) (hhigh : multiple ≤ 2 * runLength)
    (h : shift * runLength + multiple < rank) :
    multiple * (den * twoPow shift) + den * twoPow shift ≤ unitsOfRank rank * den ∨
      multiple * (den * twoPow shift) ≤ unitsOfRank rank * den ∧
        num * unitsInOne ≤ multiple * (den * twoPow shift) := by
  by_cases hlast : multiple < 2 * runLength
  · left
    have hle : shift * runLength + (multiple + 1) ≤ rank := h
    have hafter := unitsOfRank_mul_mono den hle
    rwa [unitsOfRank_run_mul den (by omega) (by omega), Nat.add_one_mul] at hafter
  · right
    have hmultiple : multiple = 2 * runLength := by omega
    have hafter := unitsOfRank_mul_mono den (Nat.le_of_lt h)
    rw [unitsOfRank_run_mul den hlow hhigh] at hafter
    refine ⟨hafter, ?_⟩
    rw [hmultiple]
    omega

/-- **Rounding goes to the nearest rank.**  No magnitude is nearer to a quotient than
the one of the rank that it is rounded to. -/
theorem rankOfRatio_nearest (hden : 0 < den) (rank : Nat) :
    Nat.dist (num * unitsInOne) (unitsOfRank (rankOfRatio num den) * den) ≤
      Nat.dist (num * unitsInOne) (unitsOfRank rank * den) := by
  obtain ⟨shift, multiple, hrank, hstart, hend, hlow, hhigh, hhalf⟩ :=
    rankOfRatio_run num hden
  rw [hrank, unitsOfRank_run_mul den hlow hhigh]
  -- half a step at most to the multiple, and half a step at least to what is a step from it
  unfold Nat.dist at hhalf ⊢
  rcases Nat.lt_trichotomy rank (shift * runLength + multiple) with hless | heq | hgreater
  · have hbefore := before_multiple num hstart hlow hhigh hless
    omega
  · rw [heq, unitsOfRank_run_mul den hlow hhigh]
  · have hbehind := behind_multiple num hend hlow hhigh hgreater
    omega

variable {num}

/-- Rounding down does not cross a rank. -/
theorem le_rankOfRatio (hden : 0 < den) {rank : Nat}
    (h : unitsOfRank rank * den ≤ num * unitsInOne) : rank ≤ rankOfRatio num den := by
  have hnearest := rankOfRatio_nearest num hden rank
  by_contra hbelow
  have hunits := Nat.mul_lt_mul_of_pos_right
    (unitsOfRank_strictMono (Nat.lt_of_not_le hbelow)) hden
  unfold Nat.dist at hnearest
  omega

/-- Rounding up does not cross a rank. -/
theorem rankOfRatio_le (hden : 0 < den) {rank : Nat}
    (h : num * unitsInOne ≤ unitsOfRank rank * den) : rankOfRatio num den ≤ rank := by
  have hnearest := rankOfRatio_nearest num hden rank
  by_contra habove
  have hunits := Nat.mul_lt_mul_of_pos_right
    (unitsOfRank_strictMono (Nat.lt_of_not_le habove)) hden
  unfold Nat.dist at hnearest
  omega

/-- A quotient that is a magnitude is rounded to it. -/
theorem rankOfRatio_eq (hden : 0 < den) {rank : Nat}
    (h : unitsOfRank rank * den = num * unitsInOne) : rankOfRatio num den = rank :=
  Nat.le_antisymm (rankOfRatio_le hden h.ge) (le_rankOfRatio hden h.le)

theorem rankOfRatio_zero : rankOfRatio 0 1 = 0 :=
  rankOfRatio_eq Nat.one_pos (by rw [unitsOfRank_zero, Nat.zero_mul, Nat.zero_mul])

/-! ## Whole numbers -/

/-- The ranks at the starts of the runs are the powers of two. -/
theorem unitsOfRank_powerOfTwo (k : Nat) :
    unitsOfRank ((1023 + k) * runLength) = twoPow k * unitsInOne := by
  have hrank : (1023 + k) * runLength = (1022 + k) * runLength + runLength := by
    rw [← Nat.add_one_mul]
    congr 1
    omega
  rw [hrank, unitsOfRank_run (.inr (Nat.le_refl _)) (by omega), runLength_mul_twoPow,
    unitsInOne, ← twoPow_add]
  congr 1
  omega

/-- The integer that a whole number is rounded to is whole. -/
theorem unitsInOne_dvd_rankOfRatio (n : Nat) :
    unitsInOne ∣ unitsOfRank (rankOfRatio n 1) := by
  obtain ⟨shift, multiple, hrank, -, -, hlow, hhigh, hhalf⟩ :=
    rankOfRatio_run n Nat.one_pos
  rw [hrank, unitsOfRank_run hlow hhigh]
  rw [Nat.one_mul] at hhalf
  rcases Nat.le_total 1074 shift with hcoarse | hfine
  · obtain ⟨k, rfl⟩ := Nat.exists_eq_add_of_le hcoarse
    rw [twoPow_add]
    exact Dvd.dvd.mul_left (Nat.dvd_mul_right _ _) multiple
  · -- the steps of the run are parts of one, so the number is on a step itself
    obtain ⟨k, hk⟩ := Nat.exists_eq_add_of_le hfine
    have hunits : n * unitsInOne = n * twoPow k * twoPow shift := by
      rw [unitsInOne, hk, Nat.add_comm, twoPow_add, Nat.mul_assoc]
    have hdist : Nat.dist (n * twoPow k) multiple = 0 := by
      rw [hunits, Nat.dist_mul_right, ← Nat.mul_assoc] at hhalf
      have hle : 2 * Nat.dist (n * twoPow k) multiple ≤ 1 :=
        Nat.le_of_mul_le_mul_right (by rwa [Nat.one_mul]) (twoPow_pos shift)
      omega
    rw [← Nat.eq_of_dist_eq_zero hdist, ← hunits]
    exact Nat.dvd_mul_left _ _

/-- Multiples of a power of two up to `2 ^ 53` times are magnitudes. -/
theorem exists_unitsOfRank_eq (shift : Nat) {multiple : Nat} (h : multiple ≤ 2 * runLength) :
    ∃ rank, unitsOfRank rank = multiple * twoPow shift := by
  -- along the shift: a multiple below its run is twice the multiple of the run before
  induction shift generalizing multiple with
  | zero => exact ⟨0 * runLength + multiple, unitsOfRank_run (.inl rfl) h⟩
  | succ shift ih =>
      rcases Nat.lt_or_ge multiple runLength with hbelow | hfrom
      · have hdouble : 2 * multiple ≤ 2 * runLength := by omega
        obtain ⟨rank, hrank⟩ := ih hdouble
        refine ⟨rank, ?_⟩
        rw [hrank, twoPow_succ, Nat.mul_comm (twoPow shift), ← Nat.mul_assoc,
          Nat.mul_comm multiple]
      · exact ⟨_, unitsOfRank_run (.inr hfrom) h⟩

/-- Whole numbers up to `2 ^ 53` are not changed by rounding. -/
theorem unitsOfRank_rankOfRatio {n : Nat} (h : n ≤ 2 ^ 53) :
    unitsOfRank (rankOfRatio n 1) = n * unitsInOne := by
  have hle : n ≤ 2 * runLength := h
  obtain ⟨rank, hrank⟩ := exists_unitsOfRank_eq 1074 hle
  have hexact : rankOfRatio n 1 = rank :=
    rankOfRatio_eq Nat.one_pos (by rw [Nat.mul_one, hrank, unitsInOne])
  rw [hexact, hrank, unitsInOne]

end RuleEngine
