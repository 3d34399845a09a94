import Mathlib.Algebra.Order.Field.Power
import Mathlib.Algebra.Order.Field.Rat
import Mathlib.Tactic.FieldSimp
import Mathlib.Tactic.NormNum
import Mathlib.Tactic.Ring
import RuleEngine.Number.Numeral
import RuleEngine.Proofs.Rounding

/-!
# Decimals and ranks

A decimal stands for a rational number, and the rank that it is rounded to depends on
this number only, not on the way in which it is split into digits and an exponent.  So
the numerals that are written for a number need not have the digits of the decimal that
was found for it: zeros may be added at either end, and the point may be set anywhere.

* `rankOfRatio_congr` — equal quotients have the same rank;
* `Decimal.value`, `Decimal.rank_congr` — the number of a decimal, and its rank;
* `Decimal.toBinary64_eq` — decimals far outside the finite range are no exception;
* `rank_shortest` — the shortest decimal of a rank reads back to it;
* `NumberFormat.magnitude_numeral`, `NumberFormat.toBinary64_numeral` — and so does every
  numeral that is written for a rank.
-/

namespace RuleEngine

/-! ## Quotients -/

/-- Extending a quotient does not change the integer nearest to it. -/
theorem nearestInteger_mul_right (num den : Nat) {k : Nat} (hk : 0 < k) :
    nearestInteger (num * k) (den * k) = nearestInteger num den := by
  have hlt (a b : Nat) : 2 * (a * k) < b * k ↔ 2 * a < b := by
    rw [← Nat.mul_assoc, Nat.mul_lt_mul_right hk]
  have hgt (a b : Nat) : b * k < 2 * (a * k) ↔ b < 2 * a := by
    rw [← Nat.mul_assoc, Nat.mul_lt_mul_right hk]
  unfold nearestInteger
  rw [Nat.mul_div_mul_right _ _ hk, Nat.mul_mod_mul_right]
  simp only [hlt, hgt]

/-- Extending a quotient does not change the rank that it is rounded to. -/
theorem rankOfRatio_mul_right (num den : Nat) {k : Nat} (hk : 0 < k) :
    rankOfRatio (num * k) (den * k) = rankOfRatio num den := by
  have hunits : num * k * unitsInOne = num * unitsInOne * k := Nat.mul_right_comm num k unitsInOne
  have hstep (shift : Nat) : den * k * twoPow shift = den * twoPow shift * k :=
    Nat.mul_right_comm den k (twoPow shift)
  unfold rankOfRatio
  dsimp only
  rw [hunits, Nat.mul_div_mul_right _ _ hk, hstep, nearestInteger_mul_right _ _ hk]

/-- **Equal quotients have the same rank.** -/
theorem rankOfRatio_congr {num den num' den' : Nat} (hden : 0 < den) (hden' : 0 < den')
    (h : num * den' = num' * den) : rankOfRatio num den = rankOfRatio num' den' := by
  rw [← rankOfRatio_mul_right num den hden', h, Nat.mul_comm den den',
    rankOfRatio_mul_right num' den' hden]

/-- A quotient below half of the least magnitude has rank zero. -/
theorem rankOfRatio_eq_zero {num den : Nat} (h : 2 * (num * unitsInOne) < den) :
    rankOfRatio num den = 0 := by
  have hzero : num * unitsInOne / den = 0 := Nat.div_eq_of_lt (by omega)
  have hmod : num * unitsInOne % den = num * unitsInOne := Nat.mod_eq_of_lt (by omega)
  unfold rankOfRatio
  dsimp only
  rw [hzero, Nat.log2_zero, Nat.zero_sub, Nat.zero_mul, twoPow_zero, Nat.mul_one, Nat.zero_add,
    nearestInteger, hzero, hmod, if_pos h]

/-! ## Decimals -/

namespace Decimal

/-- The number that a decimal stands for. -/
def value (d : Decimal) : ℚ := d.digits * 10 ^ d.exponent

theorem tenPow_eq_pow (n : Nat) : (tenPow n : ℚ) = 10 ^ n := Nat.cast_pow 10 n

/-- A power of ten is a quotient of two, one of which is one. -/
theorem zpow_eq_div (exponent : Int) :
    (10 : ℚ) ^ exponent = tenPow exponent.toNat / tenPow (-exponent).toNat := by
  rw [tenPow_eq_pow, tenPow_eq_pow, ← zpow_natCast, ← zpow_natCast,
    ← zpow_sub₀ (by norm_num)]
  congr 1
  omega

/-- A decimal is a quotient of natural numbers, whichever sign its exponent has. -/
theorem value_eq_div (d : Decimal) :
    d.value = (d.digits * tenPow d.exponent.toNat : Nat) / (tenPow (-d.exponent).toNat : Nat) := by
  rw [value, zpow_eq_div, mul_div_assoc']
  push_cast
  rfl

/-- **The rank of a decimal depends on its number only.** -/
theorem rank_congr {d d' : Decimal} (h : d.value = d'.value) : d.rank = d'.rank := by
  have hpos (n : Nat) : (tenPow n : ℚ) ≠ 0 := by exact_mod_cast (tenPow_pos n).ne'
  rw [value_eq_div, value_eq_div, div_eq_div_iff (hpos _) (hpos _)] at h
  exact rankOfRatio_congr (tenPow_pos _) (tenPow_pos _) (by exact_mod_cast h)

/-- A decimal without digits has the rank zero. -/
theorem rank_of_digits_eq_zero {d : Decimal} (h : d.digits = 0) : d.rank = 0 := by
  rw [rank, h, Nat.zero_mul]
  exact rankOfRatio_eq (tenPow_pos _) (by rw [unitsOfRank_zero, Nat.zero_mul, Nat.zero_mul])

/-- A power of ten above the exponent 400 is above every finite number. -/
theorem rankLimit_le_rank {d : Decimal} (hdigits : d.digits ≠ 0) (h : 400 < d.exponent) :
    rankLimit ≤ d.rank := by
  have hden : tenPow (-d.exponent).toNat = 1 := by
    rw [Int.toNat_of_nonpos (by omega), tenPow_zero]
  have hlimit : unitsOfRank rankLimit = twoPow 1024 * unitsInOne :=
    unitsOfRank_powerOfTwo 1024
  have hpow : twoPow 1024 ≤ tenPow 401 := by decide +kernel
  have hten : tenPow 401 ≤ tenPow d.exponent.toNat := tenPow_le (by omega)
  have hmul : tenPow d.exponent.toNat ≤ d.digits * tenPow d.exponent.toNat :=
    Nat.le_mul_of_pos_left _ (Nat.pos_of_ne_zero hdigits)
  rw [rank, hden]
  apply le_rankOfRatio Nat.one_pos
  rw [hlimit, Nat.mul_one]
  exact Nat.mul_le_mul_right _ (Nat.le_trans hpow (Nat.le_trans hten hmul))

/-- A decimal so far below one that its digits do not lift it up is nearest to zero. -/
theorem rank_eq_zero {d : Decimal} (h : d.exponent < -(401 + d.digits.log2 : Int)) :
    d.rank = 0 := by
  have hnum : tenPow d.exponent.toNat = 1 := by
    rw [Int.toNat_of_nonpos (by omega), tenPow_zero]
  have hdigits : d.digits < twoPow (d.digits.log2 + 1) := Nat.lt_log2_self
  have hten : tenPow (402 + d.digits.log2) ≤ tenPow (-d.exponent).toNat := tenPow_le (by omega)
  have hbase : twoPow 1076 ≤ tenPow 402 := by decide +kernel
  have hprod : twoPow 1076 * twoPow d.digits.log2 ≤ tenPow (402 + d.digits.log2) := by
    rw [tenPow_add]
    exact Nat.mul_le_mul hbase (twoPow_le_tenPow _)
  have hunits : 2 * (twoPow (d.digits.log2 + 1) * unitsInOne) =
      twoPow 1076 * twoPow d.digits.log2 := by
    rw [unitsInOne, ← twoPow_add, ← twoPow_add, Nat.mul_comm, ← twoPow_succ]
    congr 1
    omega
  rw [rank, hnum, Nat.mul_one]
  apply rankOfRatio_eq_zero
  have hlt : 2 * (d.digits * unitsInOne) < 2 * (twoPow (d.digits.log2 + 1) * unitsInOne) :=
    Nat.mul_lt_mul_of_pos_left (Nat.mul_lt_mul_of_pos_right hdigits unitsInOne_pos) (by decide)
  omega

/-- **The number nearest to a decimal is that of its rank,** also where its power of ten
is not computed. -/
theorem toBinary64_eq (negative : Bool) (d : Decimal) :
    d.toBinary64 negative = .ofRank negative d.rank := by
  unfold toBinary64
  split
  · rename_i hzero
    rw [rank_of_digits_eq_zero hzero]
  · rename_i hdigits
    split
    · rename_i hlarge
      rw [Binary64.ofRank, dif_neg (Nat.not_lt.mpr (rankLimit_le_rank hdigits hlarge))]
    · split
      · rename_i hsmall
        rw [rank_eq_zero hsmall]
      · rfl

end Decimal

/-! ## The shortest decimal -/

/-- A power of two below one is a power of five over a power of ten. -/
theorem rank_exactDecimal (rank : Nat) : (exactDecimal (unitsOfRank rank)).rank = rank := by
  have hnum : tenPow (-1074 : Int).toNat = 1 := rfl
  have hexponent : (-(-1074) : Int).toNat = 1074 := rfl
  rw [Decimal.rank, exactDecimal]
  dsimp only
  rw [hnum, hexponent, Nat.mul_one]
  -- from here on the exponent is any number, so that no power of it is computed
  generalize hn : 1074 = n
  have hunit : unitsInOne = twoPow n := by rw [← hn, unitsInOne]
  apply rankOfRatio_eq (tenPow_pos n)
  rw [hunit, tenPow_eq_mul, Nat.mul_assoc]

/-- **The shortest decimal of a rank reads back to it.** -/
theorem rank_shortest (tie : Tie) (rank : Nat) : (shortest tie rank).rank = rank := by
  unfold shortest
  split
  · rename_i hzero
    rw [hzero, Decimal.rank, Nat.zero_mul]
    exact rankOfRatio_zero
  · dsimp only
    cases hfind : ((List.range 20).map fun (i : Nat) =>
        topExponent (unitsOfRank rank) - 1 - (i : Int)).findSome? (onGrid? tie rank) with
    | none => exact rank_exactDecimal rank
    | some d =>
        obtain ⟨exponent, -, hgrid⟩ := List.exists_of_findSome?_eq_some hfind
        exact rank_of_onGrid? hgrid

/-! ## Numerals -/

/-- Digits cut in two are read one part after the other. -/
theorem valueFrom_take_drop (digits : List Digit) (n : Nat) :
    valueFrom (valueOf (digits.take n)) (digits.drop n) = valueOf digits := by
  rw [valueOf, ← valueFrom_append, List.take_append_drop, valueOf]

/-- Digits are fewer than the power of ten of their count. -/
theorem valueFrom_lt (start : Nat) (digits : List Digit) :
    valueFrom start digits < (start + 1) * tenPow digits.length := by
  induction digits generalizing start with
  | nil => rw [List.length_nil, tenPow_zero, Nat.mul_one]; exact Nat.lt_succ_self start
  | cons d digits ih =>
      have hd : 10 * start + d.val + 1 ≤ (start + 1) * 10 := by omega
      have hmul := Nat.mul_le_mul_right (tenPow digits.length) hd
      rw [List.length_cons, tenPow_succ, Nat.mul_comm (tenPow digits.length), ← Nat.mul_assoc]
      exact Nat.lt_of_lt_of_le (ih (10 * start + d.val)) hmul

/-- A number is below the power of ten of the count of its digits. -/
theorem lt_tenPow_length_digitsOf (n : Nat) : n < tenPow (digitsOf n).length := by
  have hlt := valueFrom_lt 0 (digitsOf n)
  rwa [← valueOf, valueOf_digitsOf, Nat.zero_add, Nat.one_mul] at hlt

namespace NumberFormat

/-- **Setting the point leaves digits and exponent as they are,** but for a whole number:
that has all its places written, and a zero behind the point. -/
theorem magnitude_positional (negative : Bool) (digits : List Digit) (lead : Int) :
    (positional negative digits lead).magnitude =
        ⟨valueOf digits, lead + 1 - digits.length⟩ ∨
      ∃ k : Nat, lead + 1 - digits.length = k ∧
        (positional negative digits lead).magnitude = ⟨valueOf digits * tenPow (k + 1), -1⟩ := by
  unfold positional
  split
  · left
    rw [Numeral.magnitude]
    dsimp only
    rw [← valueOf, valueOf_replicate_zero_append, List.length_append,
      List.length_replicate, Option.getD_none]
    congr 1
    omega
  · dsimp only
    split
    · rename_i hempty
      have hlength : digits.length ≤ lead.toNat + 1 :=
        List.drop_eq_nil_iff.mp (List.isEmpty_iff.mp hempty)
      have htake : digits.take (lead.toNat + 1) = digits := List.take_of_length_le hlength
      right
      refine ⟨lead.toNat + 1 - digits.length, by omega, ?_⟩
      rw [Numeral.magnitude, htake, tenPow_succ, ← Nat.mul_assoc, Nat.mul_comm _ 10]
      rfl
    · rename_i hfraction
      have hlength : lead.toNat + 1 < digits.length := by
        simpa [List.isEmpty_iff, List.drop_eq_nil_iff] using hfraction
      have hzeros : lead.toNat + 1 - digits.length = 0 := by omega
      left
      rw [Numeral.magnitude, hzeros, tenPow_zero, Nat.mul_one]
      dsimp only
      rw [valueFrom_take_drop, List.length_drop, Option.getD_none]
      congr 1
      omega

/-- Digits with an exponent say these digits, with the exponent of the last of them. -/
theorem magnitude_scientific (negative : Bool) {digits : List Digit} (hne : digits ≠ [])
    (lead : Int) :
    (scientific negative digits lead).magnitude = ⟨valueOf digits, lead + 1 - digits.length⟩ := by
  have hpos : 0 < digits.length := List.length_pos_of_ne_nil hne
  rw [scientific, Numeral.magnitude]
  dsimp only
  rw [valueFrom_take_drop, List.length_drop, Option.getD_some]
  congr 1
  omega

variable (format : NumberFormat) (negative : Bool) (rank : Nat)

/-- **The numeral of a rank has the digits of its shortest decimal,** and in the one case
a few zeros behind them. -/
theorem magnitude_numeral :
    (format.numeral negative rank).magnitude = shortest format.tie rank ∨
      ∃ k : Nat, (shortest format.tie rank).exponent = k ∧
        k + (digitsOf (shortest format.tie rank).digits).length ≤ format.plainBelow ∧
        (format.numeral negative rank).magnitude =
          ⟨(shortest format.tie rank).digits * tenPow (k + 1), -1⟩ := by
  have hexponent : (shortest format.tie rank).exponent +
      (digitsOf (shortest format.tie rank).digits).length - 1 + 1 -
      (digitsOf (shortest format.tie rank).digits).length =
      (shortest format.tie rank).exponent := by omega
  unfold numeral
  dsimp only
  split
  · rename_i hplain
    rcases magnitude_positional negative (digitsOf (shortest format.tie rank).digits)
      ((shortest format.tie rank).exponent +
        (digitsOf (shortest format.tie rank).digits).length - 1) with hpair | ⟨k, hk, hpair⟩
    · left
      rw [hpair, valueOf_digitsOf, hexponent]
    · right
      rw [hexponent] at hk
      rw [valueOf_digitsOf] at hpair
      exact ⟨k, hk, by omega, hpair⟩
  · left
    rw [magnitude_scientific _ (digitsOf_ne_nil _), valueOf_digitsOf, hexponent]

/-- **The numeral of a rank says its shortest decimal,** in either form. -/
theorem value_numeral :
    (format.numeral negative rank).magnitude.value = (shortest format.tie rank).value := by
  rcases magnitude_numeral format negative rank with hpair | ⟨k, hk, -, hpair⟩
  · rw [hpair]
  · rw [hpair, Decimal.value, Decimal.value, hk, zpow_natCast]
    dsimp only
    push_cast
    rw [Decimal.tenPow_eq_pow, pow_succ]
    norm_num
    ring

/-- The numeral of a number has its sign. -/
theorem negative_numeral : (format.numeral negative rank).negative = negative := by
  unfold numeral
  dsimp only
  split
  · unfold positional
    split <;> rfl
  · rfl

/-- The rank of a numeral is the one that it was written for. -/
theorem rank_numeral : (format.numeral negative rank).magnitude.rank = rank := by
  rw [Decimal.rank_congr (value_numeral format negative rank), rank_shortest]

/-- **The numeral of a number is nearest to no other.** -/
theorem toBinary64_numeral :
    (format.numeral negative rank).toBinary64 = .ofRank negative rank := by
  rw [Numeral.toBinary64, Decimal.toBinary64_eq, rank_numeral, negative_numeral]

end NumberFormat

end RuleEngine
