import Mathlib.Algebra.Order.Field.Rat
import Mathlib.Tactic.NormNum
import Mathlib.Tactic.Ring
import RuleEngine.Proofs.NumberLine
import RuleEngine.Value

/-!
# Ordering a value against a number is exact

A field value is ordered against a binary64 number in one of three ways: two
integers are compared, or the integer is rounded first, or two floating numbers are
compared by their places.  Each of them is the order of the exact values.

Rounding first is the delicate one.  It can only hurt where the integer is rounded
to the very number that it is compared with; but that number would be an integer
below the bound, and those are compared as integers.

* `Encoding.IsNaN`, `Encoding.value` — what sixty-four bits mean, by their fields;
* `Encoding.place_ofBits`, `Encoding.value_eq` — the number of an encoding stands at
  the place of its value;
* `Value.compareNumber_integer` — the order of an integer in units;
* `Value.compareNumber_exact` — the order of every value against every encoding.
-/

namespace RuleEngine

namespace Binary64

/-! ## Numbers at places -/

/-- No number stands beyond the infinities. -/
theorem natAbs_place_le {x : Binary64} {p : Int} (h : x.place = some p) :
    p.natAbs ≤ rankLimit := by
  cases x with
  | nan => cases h
  | infinity negative =>
      rw [← Option.some.inj h, natAbs_signed]
  | finite negative rank hrank =>
      rw [← Option.some.inj h, natAbs_signed]
      exact Nat.le_of_lt hrank

/-- Whatever is a number has a place. -/
theorem exists_place {x : Binary64} (h : x ≠ nan) : ∃ p, x.place = some p := by
  cases x with
  | nan => exact absurd rfl h
  | infinity negative => exact ⟨_, rfl⟩
  | finite negative rank hrank => exact ⟨_, rfl⟩

/-- Numbers are in the order of their places. -/
theorem compare?_eq {x y : Binary64} {p q : Int} (hx : x.place = some p)
    (hy : y.place = some q) : x.compare? y = some (compare p q) := by
  rw [compare?, hx, hy]

/-- Without its sign a number stands as far from zero on the upper side. -/
theorem place_abs {x : Binary64} {p : Int} (h : x.place = some p) :
    x.abs.place = some (p.natAbs : Int) := by
  cases x with
  | nan => cases h
  | infinity negative =>
      rw [← Option.some.inj h, natAbs_signed]
      rfl
  | finite negative rank hrank =>
      rw [← Option.some.inj h, natAbs_signed]
      rfl

theorem dvd_signed_iff {k : Int} (negative : Bool) (magnitude : Nat) :
    k ∣ signed negative magnitude ↔ k ∣ magnitude := by
  cases negative with
  | false => exact Iff.rfl
  | true => exact Int.dvd_neg

/-- A number is integral when it is finite and a whole number of ones. -/
theorem isIntegral_iff {x : Binary64} {p : Int} (h : x.place = some p) :
    x.isIntegral = true ↔ p.natAbs < rankLimit ∧ (unitsInOne : Int) ∣ unitsAt p := by
  cases x with
  | nan => cases h
  | infinity negative =>
      rw [← Option.some.inj h, natAbs_signed]
      constructor
      · intro hintegral
        cases hintegral
      · rintro ⟨hlt, -⟩
        exact absurd hlt (Nat.lt_irrefl rankLimit)
  | finite negative rank hrank =>
      rw [← Option.some.inj h, natAbs_signed, unitsAt_signed, dvd_signed_iff,
        Int.natCast_dvd_natCast, isIntegral, decide_eq_true_eq, ← Nat.dvd_iff_mod_eq_zero]
      exact ⟨fun hdvd => ⟨hrank, hdvd⟩, fun hboth => hboth.2⟩

/-- An integer that is not too large is rounded to a finite number. -/
theorem place_ofInt {i : Int} {k : Nat} (hk : k < 1024) (h : i.natAbs ≤ twoPow k) :
    (ofInt i).place = some (placeOfInt i) := by
  have hrank := rankOfRatio_le_powerOfTwo h
  have hlt : rankOfRatio i.natAbs 1 < rankLimit := by
    simp only [runLength, rankLimit] at hrank ⊢
    omega
  rw [ofInt, ofRatio, ofRank, dif_pos hlt, place, signed_rankOfRatio]

/-! ## The bound of exact conversion -/

/-- The bound stands where `10 ^ 38` is rounded to. -/
theorem place_exactBound : Value.exactBound.place = some (placeOfInt (tenPow 38)) :=
  place_ofInt (k := 127) (by decide) (by decide)

/-- The bound is `2 ^ 64` or more, beyond the integers of sixty-four bits. -/
theorem le_placeOfInt_bound : (((1023 + 64) * runLength : Nat) : Int) ≤ placeOfInt (tenPow 38) := by
  apply le_placeOfInt
  rw [unitsAt_natCast, unitsOfRank_powerOfTwo]
  have hle : twoPow 64 * unitsInOne ≤ tenPow 38 * unitsInOne :=
    Nat.mul_le_mul_right _ (by decide)
  exact_mod_cast hle

/-- The bound is `2 ^ 127` at most, within the integers of 128 bits. -/
theorem placeOfInt_bound_le : placeOfInt (tenPow 38) ≤ (((1023 + 127) * runLength : Nat) : Int) := by
  apply placeOfInt_le
  rw [unitsAt_natCast, unitsOfRank_powerOfTwo]
  have hle : tenPow 38 * unitsInOne ≤ twoPow 127 * unitsInOne :=
    Nat.mul_le_mul_right _ (by decide)
  exact_mod_cast hle

/-- A number that is compared as an integer: integral, and below the bound. -/
theorem compared_as_integer_iff {x : Binary64} {p : Int} (h : x.place = some p) :
    (x.isIntegral = true ∧ x.abs.compare? Value.exactBound = some .lt) ↔
      (unitsInOne : Int) ∣ unitsAt p ∧ p.natAbs < placeOfInt (tenPow 38) := by
  rw [isIntegral_iff h, compare?_eq (place_abs h) place_exactBound, Option.some.injEq,
    compare_lt_iff_lt]
  constructor
  · rintro ⟨⟨-, hdvd⟩, hbound⟩
    exact ⟨hdvd, hbound⟩
  · rintro ⟨hdvd, hbound⟩
    have hle := placeOfInt_bound_le
    refine ⟨⟨?_, hdvd⟩, hbound⟩
    simp only [runLength, rankLimit] at hle ⊢
    omega

/-- **The integral part is exact.**  It is held at neither end of its range. -/
theorem toInt128_exact {x : Binary64} {p : Int} (h : x.place = some p)
    (hdvd : (unitsInOne : Int) ∣ unitsAt p) (hbound : p.natAbs < placeOfInt (tenPow 38)) :
    unitsAt p = x.toInt128 * unitsInOne ∧ int128Min ≤ x.toInt128 ∧ x.toInt128 ≤ int128Max := by
  have hplace : p.natAbs < (1023 + 127) * runLength := by
    have hle := placeOfInt_bound_le
    omega
  cases x with
  | nan => cases h
  | infinity negative =>
      rw [← Option.some.inj h, natAbs_signed] at hplace
      exact absurd hplace (by decide)
  | finite negative rank hrank =>
      rw [← Option.some.inj h, natAbs_signed] at hplace
      rw [← Option.some.inj h, unitsAt_signed] at hdvd ⊢
      obtain ⟨whole, hwhole⟩ := Int.natCast_dvd_natCast.mp ((dvd_signed_iff _ _).mp hdvd)
      have hsmall : whole < twoPow 127 := by
        have hunits := unitsOfRank_strictMono hplace
        rw [unitsOfRank_powerOfTwo, hwhole, Nat.mul_comm] at hunits
        exact Nat.lt_of_mul_lt_mul_right hunits
      have hdiv : unitsOfRank rank / unitsInOne = whole := by
        rw [hwhole, Nat.mul_div_cancel_left _ unitsInOne_pos]
      have hrange : int128Min ≤ signed negative whole ∧ signed negative whole ≤ int128Max := by
        have htwo : twoPow 127 = 0x80000000000000000000000000000000 := by decide
        rw [htwo] at hsmall
        cases negative <;> simp only [signed_true, signed_false, int128Min, int128Max] <;> omega
      have hvalue : toInt128 (finite negative rank hrank) = signed negative whole := by
        rw [toInt128, hdiv, Int.min_eq_right hrange.2, Int.max_eq_right hrange.1]
      rw [hvalue, hwhole]
      refine ⟨?_, hrange⟩
      cases negative with
      | false =>
          rw [signed_false, signed_false, Int.natCast_mul, Int.mul_comm]
      | true =>
          rw [signed_true, signed_true, Int.natCast_mul, Int.neg_mul, Int.mul_comm]

/-- The integers of sixty-four bits are small. -/
theorem natAbs_toInt_le (i : Int64) : i.toInt.natAbs ≤ twoPow 63 := by
  have hlow := i.le_toInt
  have hhigh := i.toInt_lt
  have htwo : twoPow 63 = 2 ^ 63 := rfl
  omega

/-- Integers of sixty-four bits are rounded to numbers below the bound. -/
theorem natAbs_placeOfInt_lt_bound (i : Int64) :
    (placeOfInt i.toInt).natAbs < placeOfInt (tenPow 38) := by
  have hplace := natAbs_placeOfInt_le (natAbs_toInt_le i)
  have hbound := le_placeOfInt_bound
  simp only [runLength] at hplace hbound
  omega

/-- An integer of sixty-four bits is rounded to a finite number. -/
theorem place_ofInt64 (i : Int64) : (ofInt i.toInt).place = some (placeOfInt i.toInt) :=
  place_ofInt (by decide) (natAbs_toInt_le i)

/-- **Rounding an integer first does no harm** where the other number is not compared
as an integer. -/
theorem compare?_ofInt {x : Binary64} {p : Int} (h : x.place = some p) (i : Int64)
    (hinexact : ¬ (x.isIntegral = true ∧ x.abs.compare? Value.exactBound = some .lt)) :
    (ofInt i.toInt).compare? x = some (compare (i.toInt * unitsInOne) (unitsAt p)) := by
  -- the integer itself would be rounded to an integer below the bound
  have hne : p ≠ placeOfInt i.toInt := by
    rintro rfl
    apply hinexact
    rw [compared_as_integer_iff h]
    exact ⟨unitsInOne_dvd_placeOfInt i.toInt, natAbs_placeOfInt_lt_bound i⟩
  rw [compare?_eq (place_ofInt64 i) h, compare_placeOfInt hne]

end Binary64

namespace Value

open Binary64

/-- **An integer is ordered exactly,** in units of the least magnitude. -/
theorem compareNumber_integer {x : Binary64} {p : Int} (h : x.place = some p) (i : Int64) :
    (integer i).compareNumber x = some (compare (i.toInt * unitsInOne) (unitsAt p)) := by
  rw [compareNumber]
  split
  · rename_i hexact
    obtain ⟨hdvd, hbound⟩ := (compared_as_integer_iff h).mp hexact
    obtain ⟨hunits, -, -⟩ := toInt128_exact h hdvd hbound
    rw [hunits, compare_mul_unitsInOne]
  · rename_i hinexact
    exact compare?_ofInt h i hinexact

/-- Only what is no number has no order against an integer. -/
theorem compareNumber_integer_eq_none_iff {x : Binary64} (i : Int64) :
    (integer i).compareNumber x = none ↔ x = nan := by
  constructor
  · intro hnone
    by_contra hnumber
    obtain ⟨p, hplace⟩ := exists_place hnumber
    rw [compareNumber_integer hplace i] at hnone
    cases hnone
  · rintro rfl
    have hinexact : ¬ (isIntegral nan = true ∧ nan.abs.compare? exactBound = some .lt) :=
      fun hexact => Bool.false_ne_true hexact.1
    rw [compareNumber, if_neg hinexact, compare?_eq_none_iff]
    exact .inr rfl

end Value

/-! ## Encodings -/

namespace Encoding

/-- The eleven bits behind the sign bit. -/
def exponentField (bits : BitVec 64) : Nat := bits.toNat / 2 ^ 52 % 2 ^ 11

/-- The fifty-two bits at the end. -/
def fractionField (bits : BitVec 64) : Nat := bits.toNat % 2 ^ 52

/-- The encoding of no number. -/
def IsNaN (bits : BitVec 64) : Prop := exponentField bits = 2047 ∧ fractionField bits ≠ 0

/-- The sign of an encoding. -/
def sign (bits : BitVec 64) : ℚ := if bits.msb then -1 else 1

/-- The exact value of an encoding: an infinity, a subnormal number or a normal one.
This is for the encodings that are not of no number. -/
def value (bits : BitVec 64) : Extended :=
  if exponentField bits = 2047 then if bits.msb then ⊥ else ⊤
  else if exponentField bits = 0 then
    ((sign bits * (fractionField bits / 2 ^ 52) * 2 ^ (-1022 : ℤ) : ℚ) : Extended)
  else
    ((sign bits * (1 + fractionField bits / 2 ^ 52) *
      2 ^ ((exponentField bits : ℤ) - 1023) : ℚ) : Extended)

/-- The rank of an encoding is made of its two fields. -/
theorem mod_signPlace (bits : BitVec 64) :
    bits.toNat % signPlace = exponentField bits * runLength + fractionField bits := by
  simp only [signPlace, runLength, exponentField, fractionField]
  omega

theorem fractionField_lt (bits : BitVec 64) : fractionField bits < runLength :=
  Nat.mod_lt _ (by decide)

theorem exponentField_le (bits : BitVec 64) : exponentField bits ≤ 2047 :=
  Nat.le_of_lt_succ (Nat.mod_lt _ (by decide))

/-- The encodings above infinity are those of no number. -/
theorem rankLimit_lt_iff {bits : BitVec 64} : rankLimit < bits.toNat % signPlace ↔ IsNaN bits := by
  have hfraction := fractionField_lt bits
  have hexponent := exponentField_le bits
  rw [mod_signPlace, IsNaN]
  simp only [rankLimit, runLength] at hfraction ⊢
  omega

/-- The number of an encoding stands at the place of its sign and its rank. -/
theorem place_ofBits {bits : BitVec 64} (h : ¬ IsNaN bits) :
    (Binary64.ofBits bits).place = some (signed bits.msb (bits.toNat % signPlace)) := by
  rw [← rankLimit_lt_iff] at h
  rw [Binary64.ofBits, if_neg h, Binary64.ofRank]
  split
  · rfl
  · have hlimit : bits.toNat % signPlace = rankLimit := by omega
    rw [hlimit]
    rfl

/-- An encoding is that of not a number where its fields say so. -/
theorem ofBits_eq_nan_iff {bits : BitVec 64} : Binary64.ofBits bits = .nan ↔ IsNaN bits := by
  constructor
  · intro hnan
    by_contra hnot
    have hplace := place_ofBits hnot
    rw [hnan] at hplace
    cases hplace
  · intro hnan
    rw [Binary64.ofBits, if_pos (rankLimit_lt_iff.mpr hnan)]

theorem twoPow_eq_zpow (n : Nat) : (twoPow n : ℚ) = 2 ^ (n : ℤ) := by
  rw [zpow_natCast]
  exact Nat.cast_pow 2 n

theorem unitsInOne_eq_zpow : (unitsInOne : ℚ) = 2 ^ (1074 : ℤ) := twoPow_eq_zpow 1074

/-- The magnitude of an encoding, from its fields. -/
theorem unitsOfRank_div (bits : BitVec 64) :
    (unitsOfRank (bits.toNat % signPlace) / unitsInOne : ℚ) =
      if exponentField bits = 0 then (fractionField bits : ℚ) / 2 ^ 52 * 2 ^ (-1022 : ℤ)
      else (1 + (fractionField bits : ℚ) / 2 ^ 52) * 2 ^ ((exponentField bits : ℤ) - 1023) := by
  have htwo : (2 : ℚ) ≠ 0 := by norm_num
  have hfraction := fractionField_lt bits
  rw [mod_signPlace, unitsInOne_eq_zpow]
  split
  · rename_i hsubnormal
    have hunits : unitsOfRank (exponentField bits * runLength + fractionField bits) =
        fractionField bits := by
      rw [hsubnormal, unitsOfRank_run (.inl rfl) (by omega), twoPow_zero, Nat.mul_one]
    rw [hunits, div_eq_iff (zpow_ne_zero _ htwo), mul_assoc, ← zpow_add₀ htwo]
    norm_num
  · rename_i hnormal
    obtain ⟨run, hrun⟩ := Nat.exists_eq_succ_of_ne_zero hnormal
    have hrank : exponentField bits * runLength + fractionField bits =
        run * runLength + (runLength + fractionField bits) := by
      rw [hrun, Nat.succ_mul, Nat.add_assoc]
    have hlength : (runLength : ℚ) = 2 ^ 52 := by norm_num [runLength]
    rw [hrank, unitsOfRank_run (.inr (by omega)) (by omega), Nat.cast_mul, twoPow_eq_zpow,
      Nat.cast_add, hlength, hrun, div_eq_iff (zpow_ne_zero _ htwo), mul_assoc,
      ← zpow_add₀ htwo]
    have hexponent : ((run.succ : ℕ) : ℤ) - 1023 + 1074 = run + 52 := by
      push_cast
      ring
    rw [hexponent, zpow_add₀ htwo]
    norm_num
    ring

/-- The magnitude behind the last finite one is infinity. -/
theorem valueOfUnits_infinite (negative : Bool) :
    valueOfUnits (signed negative (unitsOfRank rankLimit)) = if negative then ⊥ else ⊤ := by
  have hpos : (0 : Int) < unitsOfRank rankLimit := by
    exact_mod_cast unitsOfRank_strictMono (show 0 < rankLimit by decide)
  cases negative with
  | false => exact if_pos (Int.le_refl infiniteUnits)
  | true =>
      have hnot : ¬ infiniteUnits ≤ -(unitsOfRank rankLimit : Int) := by
        rw [infiniteUnits]
        omega
      have hbelow : -(unitsOfRank rankLimit : Int) ≤ -infiniteUnits := Int.le_refl _
      rw [signed_true, valueOfUnits, if_neg hnot, if_pos hbelow, if_pos rfl]

theorem signed_div (bits : BitVec 64) (magnitude : Nat) (unit : ℚ) :
    ((signed bits.msb magnitude : ℤ) : ℚ) / unit = sign bits * (magnitude / unit) := by
  unfold sign
  cases bits.msb with
  | false => simp
  | true => simp [neg_div]

/-- **The number of an encoding stands at the place of its value.** -/
theorem value_eq {bits : BitVec 64} (h : ¬ IsNaN bits) :
    value bits = valueOfUnits (unitsAt (signed bits.msb (bits.toNat % signPlace))) := by
  rw [unitsAt_signed]
  by_cases hinfinite : exponentField bits = 2047
  · have hfraction : fractionField bits = 0 := by
      by_contra hne
      exact h ⟨hinfinite, hne⟩
    have hrank : bits.toNat % signPlace = rankLimit := by
      rw [mod_signPlace, hinfinite, hfraction]
      rfl
    rw [value, if_pos hinfinite, hrank, valueOfUnits_infinite]
  · have hrank : bits.toNat % signPlace < rankLimit := by
      have hfraction := fractionField_lt bits
      have hexponent := exponentField_le bits
      rw [mod_signPlace]
      simp only [rankLimit, runLength] at hfraction ⊢
      omega
    have hunits : (unitsOfRank (bits.toNat % signPlace) : Int) < infiniteUnits :=
      Int.ofNat_lt.mpr (unitsOfRank_strictMono hrank)
    have hbetween : -infiniteUnits < signed bits.msb (unitsOfRank (bits.toNat % signPlace)) ∧
        signed bits.msb (unitsOfRank (bits.toNat % signPlace)) < infiniteUnits := by
      cases bits.msb with
      | false => rw [signed_false]; omega
      | true => rw [signed_true]; omega
    rw [value, if_neg hinfinite, valueOfUnits_finite hbetween.1 hbetween.2, signed_div,
      unitsOfRank_div]
    split
    · rw [mul_assoc]
    · rw [mul_assoc]

/-- The value of an encoding is that of its place. -/
theorem value_of_place {bits : BitVec 64} {p : Int} (h : (Binary64.ofBits bits).place = some p) :
    value bits = valueOfUnits (unitsAt p) := by
  have hbits : ¬ IsNaN bits := by
    rw [← ofBits_eq_nan_iff]
    intro hnan
    rw [hnan] at h
    cases h
  have hplace := place_ofBits hbits
  rw [h] at hplace
  rw [value_eq hbits, Option.some.inj hplace]

/-- The integral part is the value of a number that is compared as an integer. -/
theorem value_toInt128 {bits : BitVec 64} {p : Int}
    (h : (Binary64.ofBits bits).place = some p) (hdvd : (unitsInOne : Int) ∣ unitsAt p)
    (hbound : p.natAbs < placeOfInt (tenPow 38)) :
    value bits = (((Binary64.ofBits bits).toInt128 : ℚ) : Extended) := by
  obtain ⟨hunits, hlow, hhigh⟩ := Binary64.toInt128_exact h hdvd hbound
  have hsize : (Binary64.ofBits bits).toInt128.natAbs ≤ twoPow 127 := by
    have htwo : twoPow 127 = 0x80000000000000000000000000000000 := by decide
    rw [Binary64.int128Min] at hlow
    rw [Binary64.int128Max] at hhigh
    omega
  rw [value_of_place h, hunits,
    valueOfUnits_mul (Nat.lt_of_le_of_lt hsize (twoPow_lt (by decide)))]

/-- Two encodings are in the order of the units at their places. -/
theorem cmp_value {bits other : BitVec 64} (h : ¬ IsNaN bits) (h' : ¬ IsNaN other) :
    cmp (value other) (value bits) =
      compare (signed other.msb (other.toNat % signPlace))
        (signed bits.msb (bits.toNat % signPlace)) := by
  rw [value_eq h, value_eq h', cmp_valueOfUnits
    (unitsAt_mem (Binary64.natAbs_place_le (place_ofBits h')))
    (unitsAt_mem (Binary64.natAbs_place_le (place_ofBits h))),
    ← cmp_eq_compare, ← cmp_eq_compare, unitsAt_strictMono.cmp_map_eq]

/-- An integer is ordered against an encoding as their values are. -/
theorem cmp_integer_value {bits : BitVec 64} (h : ¬ IsNaN bits) (i : Int64) :
    cmp ((i.toInt : ℚ) : Extended) (value bits) =
      compare (i.toInt * unitsInOne)
        (unitsAt (signed bits.msb (bits.toNat % signPlace))) := by
  have hsize : i.toInt.natAbs < twoPow 1024 :=
    Nat.lt_of_le_of_lt (Binary64.natAbs_toInt_le i) (twoPow_lt (by decide))
  rw [value_eq h, ← valueOfUnits_mul hsize, cmp_valueOfUnits (mul_unitsInOne_mem hsize)
    (unitsAt_mem (Binary64.natAbs_place_le (place_ofBits h)))]

end Encoding

namespace Value

open Binary64 Encoding

/-- **Every numeric value is ordered exactly.**  An integer, or the floating number of
any encoding, has no order against the number of another encoding just where one of
the two is no number; otherwise it has the order of the exact values.  Rounding an
integer first, where that is done, does not change the order; and a number that is
compared as an integer is one, within its range. -/
theorem compareNumber_exact (bits : BitVec 64) :
    (∀ i : Int64,
      ((integer i).compareNumber (ofBits bits) = none ↔ IsNaN bits) ∧
      (¬ IsNaN bits → (integer i).compareNumber (ofBits bits) =
        some (cmp ((i.toInt : ℚ) : Extended) (value bits)))) ∧
    (∀ other : BitVec 64,
      ((float (ofBits other)).compareNumber (ofBits bits) = none ↔
        IsNaN other ∨ IsNaN bits) ∧
      (¬ IsNaN other → ¬ IsNaN bits → (float (ofBits other)).compareNumber (ofBits bits) =
        some (cmp (value other) (value bits)))) ∧
    (∀ i : Int64, ¬ IsNaN bits →
      ¬ ((ofBits bits).isIntegral = true ∧
        (ofBits bits).abs.compare? exactBound = some .lt) →
      (ofInt i.toInt).compare? (ofBits bits) =
        some (cmp ((i.toInt : ℚ) : Extended) (value bits))) ∧
    ((ofBits bits).isIntegral = true ∧ (ofBits bits).abs.compare? exactBound = some .lt →
      value bits = (((ofBits bits).toInt128 : ℚ) : Extended) ∧
      int128Min ≤ (ofBits bits).toInt128 ∧ (ofBits bits).toInt128 ≤ int128Max) := by
  refine ⟨fun i => ⟨?_, fun hbits => ?_⟩, fun other => ⟨?_, fun hother hbits => ?_⟩,
    fun i hbits hinexact => ?_, fun hexact => ?_⟩
  · rw [compareNumber_integer_eq_none_iff, ofBits_eq_nan_iff]
  · rw [compareNumber_integer (place_ofBits hbits), cmp_integer_value hbits]
  · rw [compareNumber, compare?_eq_none_iff, ofBits_eq_nan_iff, ofBits_eq_nan_iff]
  · rw [compareNumber, compare?_eq (place_ofBits hother) (place_ofBits hbits),
      cmp_value hbits hother]
  · rw [compare?_ofInt (place_ofBits hbits) i hinexact, cmp_integer_value hbits]
  · have hbits : ¬ IsNaN bits := by
      rw [← ofBits_eq_nan_iff]
      intro hnan
      rw [hnan] at hexact
      cases hexact.1
    obtain ⟨hdvd, hbound⟩ := (compared_as_integer_iff (place_ofBits hbits)).mp hexact
    obtain ⟨-, hrange⟩ := toInt128_exact (place_ofBits hbits) hdvd hbound
    exact ⟨value_toInt128 (place_ofBits hbits) hdvd hbound, hrange⟩

/-- One above `2 ^ 53` is greater, though it is rounded to that. -/
example : (integer 9007199254740993).compareNumber (ofBits 0x4340000000000000) = some .gt := by
  decide +kernel

end Value

end RuleEngine
