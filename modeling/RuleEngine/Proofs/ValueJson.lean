import RuleEngine.Proofs.FloatText
import RuleEngine.Proofs.ScaledReading
import RuleEngine.Proofs.ShortestDigits
import RuleEngine.Proofs.SpelledText

/-!
# Field values written and read back

The JSON of a field value is read back from its text, so what a value becomes is decided
by what its JSON presents.  A text presents itself, and a numeral without a point and a mark
its integer.  A floating number is written with a point or a mark, and so comes back as a
floating number; its digits fit the counter, but scaled reading need not bring back the
number itself: whole numbers near `2 ^ 53` come back as their neighbours.

* `Value.ofJsonText?_spelling` — reading a value back is reading its JSON;
* `Numeral.IsExact` — the numerals that scaled reading does not miss;
* `Value.scaleRank_magnitude` — a written number is missed by little, and never too large;
* `Value.json_faithful` — what each kind of value comes back as;
* `Value.json_neighbor` — a number that comes back as another.
-/

namespace RuleEngine

namespace Value

/-- The JSON of a value is read back, so what the value becomes is decided by its JSON. -/
theorem ofJsonText?_spelling (v : Value) : ofJsonText? v.toJson.spelling = ofJson? v.toJson := by
  rw [ofJsonText?, Json.ofText?_spelling, Option.bind_some]

/-! ## Integers -/

theorem int64?_toInt (i : Int64) : int64? i.toInt = some i := by
  have hlow := i.le_toInt
  have hhigh := i.toInt_lt
  have hmin : Int64.minValue.toInt = -2 ^ 63 := by decide
  have hmax : Int64.maxValue.toInt = 2 ^ 63 - 1 := by decide
  rw [int64?, hmin, hmax, if_pos ⟨by omega, by omega⟩, Int64.ofInt_toInt]

/-- The numeral of an integer is read as this integer. -/
theorem integer?_integerNumeral (i : Int) : (integerNumeral i).integer? = some i := by
  have hwritten : ¬ ((decide (i < 0)) = true ∧ i.natAbs = 0) := by
    rw [decide_eq_true_eq]
    omega
  rw [Numeral.integer?, integerNumeral]
  dsimp only
  rw [if_pos ⟨rfl, rfl, hwritten⟩, signed_natAbs]

/-- **The numeral of an integer presents it.** -/
theorem ofNumeral?_integerNumeral (i : Int64) :
    ofNumeral? (integerNumeral i.toInt) = some (integer i) := by
  rw [ofNumeral?, integer?_integerNumeral, Option.bind_some, int64?_toInt]

/-! ## Floating numbers -/

end Value

/-- The digits of a numeral are a number, and the power of ten that stands with them is
one. -/
def Numeral.IsExact (n : Numeral) : Prop :=
  (∃ rank, unitsOfRank rank = n.magnitude.digits * unitsInOne) ∧
    n.magnitude.exponent.natAbs ≤ 22

/-- A numeral of few digits, with a small power of ten, is read exactly. -/
theorem Numeral.isExact_of_le {n : Numeral} (hdigits : n.magnitude.digits ≤ 2 ^ 53)
    (hexponent : n.magnitude.exponent.natAbs ≤ 22) : n.IsExact :=
  ⟨⟨_, unitsOfRank_rankOfRatio hdigits⟩, hexponent⟩

namespace Value

/-- **The numeral of a floating number presents no integer.** -/
theorem ofNumeral?_numeral (negative : Bool) (rank : Nat) :
    ofNumeral? (jsonFormat.numeral negative rank) =
      (jsonFormat.numeral negative rank).scaled?.map float := by
  have hnone : (jsonFormat.numeral negative rank).integer? = none := by
    rw [Numeral.integer?, if_neg]
    rintro ⟨hfraction, hexponent, -⟩
    rcases jsonFormat.numeral_marked negative rank with hpoint | hmark
    · exact hpoint (List.isEmpty_iff.mp hfraction)
    · exact hmark (Option.isNone_iff_eq_none.mp hexponent)
  rw [ofNumeral?, hnone, Option.bind_none]

/-- The digits that are written fit the counter, and the exponent is that of a finite
number. -/
theorem magnitude_bounds (negative : Bool) {rank : Nat} (h : rank < rankLimit) :
    (jsonFormat.numeral negative rank).magnitude.digits < counterLimit ∧
      -330 ≤ (jsonFormat.numeral negative rank).magnitude.exponent ∧
      (jsonFormat.numeral negative rank).magnitude.exponent ≤ 308 := by
  obtain ⟨hdigits, hlow, hhigh⟩ := shortest_bounds jsonFormat.tie h
  rcases jsonFormat.magnitude_numeral negative rank with hpair | ⟨k, -, hplain, hpair⟩
  · have hmost : tenPow 18 < counterLimit := by decide
    rw [hpair]
    exact ⟨Nat.lt_of_le_of_lt hdigits hmost, by omega, hhigh⟩
  · have hmost : tenPow 17 < counterLimit := by decide
    have hbelow : jsonFormat.plainBelow = 16 := rfl
    have hlength := lt_tenPow_length_digitsOf (shortest jsonFormat.tie rank).digits
    have hplaces : (digitsOf (shortest jsonFormat.tie rank).digits).length + (k + 1) ≤ 17 := by
      omega
    have hdigits : (shortest jsonFormat.tie rank).digits * tenPow (k + 1) < counterLimit := by
      calc (shortest jsonFormat.tie rank).digits * tenPow (k + 1)
          ≤ tenPow (digitsOf (shortest jsonFormat.tie rank).digits).length * tenPow (k + 1) :=
            Nat.mul_le_mul_right _ hlength.le
        _ = tenPow ((digitsOf (shortest jsonFormat.tie rank).digits).length + (k + 1)) :=
            (tenPow_add _ _).symm
        _ ≤ tenPow 17 := tenPow_le hplaces
        _ < counterLimit := hmost
    have hexponent : -330 ≤ (-1 : Int) ∧ (-1 : Int) ≤ 308 := by decide
    rw [hpair]
    exact ⟨hdigits, hexponent⟩

/-- The three largest finite numbers: their digits are scaled by `10 ^ 292`, and not beyond
the finite numbers. -/
theorem scaleRank_largest {rank : Nat} (h : rank < rankLimit) (htop : rankLimit ≤ rank + 3) :
    (shortest .even rank).exponent = 292 ∧
      scaledRank (rankOfRatio (shortest .even rank).digits 1) 292 < rankLimit ∧
      Nat.dist (scaledRank (rankOfRatio (shortest .even rank).digits 1) 292) rank ≤ 2 := by
  have hcomputed : ∀ rank ∈ [rankLimit - 3, rankLimit - 2, rankLimit - 1],
      (shortest .even rank).exponent = 292 ∧
        scaledRank (rankOfRatio (shortest .even rank).digits 1) 292 < rankLimit ∧
        Nat.dist (scaledRank (rankOfRatio (shortest .even rank).digits 1) 292) rank ≤ 2 := by
    decide +kernel
  apply hcomputed
  simp only [List.mem_cons, List.not_mem_nil, or_false]
  omega

/-- The scaled rank of a numeral that was written is finite and near; and it is the rank
that was written where the numeral is exact. -/
theorem scaleRank_magnitude (negative : Bool) {rank : Nat} (h : rank < rankLimit) :
    ∃ scaled, scaleRank (rankOfRatio (jsonFormat.numeral negative rank).magnitude.digits 1)
        (jsonFormat.numeral negative rank).magnitude.exponent = some scaled ∧
      scaled < rankLimit ∧
      ((jsonFormat.numeral negative rank).IsExact → scaled = rank) ∧
      Nat.dist scaled rank ≤
        scaledMiss (jsonFormat.numeral negative rank).magnitude.exponent := by
  obtain ⟨-, hlow, hhigh⟩ := magnitude_bounds negative h
  have hrank := jsonFormat.rank_numeral negative rank
  have hmiss := scaledMiss_le (jsonFormat.numeral negative rank).magnitude.exponent
  by_cases hexact : (jsonFormat.numeral negative rank).IsExact
  · obtain ⟨⟨known, hknown⟩, hexponent⟩ := hexact
    have hdigits : rankOfRatio (jsonFormat.numeral negative rank).magnitude.digits 1 = known :=
      rankOfRatio_eq Nat.one_pos (by rw [Nat.mul_one, hknown])
    have hscaled := scaledRank_exact (by rw [hdigits, hknown]) hexponent
    rw [hrank] at hscaled
    have hreach : (jsonFormat.numeral negative rank).magnitude.exponent.natAbs ≤ largestPower :=
      Nat.le_trans hexponent (by decide)
    have hfound := scaleRank_of_le hreach (by rw [hscaled]; exact h)
    rw [hscaled] at hfound
    exact ⟨rank, hfound, h, fun _ => rfl, by rw [Nat.dist_self]; exact Nat.zero_le _⟩
  · rcases Nat.lt_or_ge (rank + 3) rankLimit with hwithin | htop
    · obtain ⟨scaled, hfound, hdist⟩ := scaleRank_near hlow hhigh (by rw [hrank]; exact hwithin)
      rw [hrank] at hdist
      have hfinite : scaled < rankLimit := by
        unfold Nat.dist at hdist
        omega
      exact ⟨scaled, hfound, hfinite, fun hyes => absurd hyes hexact, hdist⟩
    · obtain ⟨hexponent, hfinite, hdist⟩ := scaleRank_largest h htop
      have hmagnitude : (jsonFormat.numeral negative rank).magnitude = shortest .even rank := by
        rcases jsonFormat.magnitude_numeral negative rank with hpair | ⟨k, hk, hplain, -⟩
        · exact hpair
        · have htie : jsonFormat.tie = .even := rfl
          have hbelow : jsonFormat.plainBelow = 16 := rfl
          rw [htie, hexponent] at hk
          omega
      rw [hmagnitude, hexponent]
      exact ⟨_, scaleRank_of_le (by decide) hfinite, hfinite, fun hyes => absurd hyes hexact, hdist⟩

/-- **A finite number is read back as a number of its sign,** exactly where its numeral is
exact, and otherwise not far from it. -/
theorem ofJson?_finite (negative : Bool) {rank : Nat} (h : rank < rankLimit) :
    ∃ (scaled : Nat) (hscaled : scaled < rankLimit),
      ofJson? (float (.finite negative rank h)).toJson =
        some (float (.finite negative scaled hscaled)) ∧
      ((jsonFormat.numeral negative rank).IsExact → scaled = rank) ∧
      Nat.dist scaled rank ≤
        scaledMiss (jsonFormat.numeral negative rank).magnitude.exponent := by
  obtain ⟨hfits, -, -⟩ := magnitude_bounds negative h
  obtain ⟨scaled, hfound, hfinite, hexact, hdist⟩ := scaleRank_magnitude negative h
  refine ⟨scaled, hfinite, ?_, hexact, hdist⟩
  rw [toJson, ofJson?, ofNumeral?_numeral, Numeral.scaled?, Numeral.counter_eq hfits]
  dsimp only
  rw [hfound, Option.map_some, Option.map_some, jsonFormat.negative_numeral, Binary64.ofRank,
    dif_pos hfinite]

/-- **What a value comes back as.**  Integers and texts come back as they were.  A finite
number comes back as a finite number of its sign, and never as an integer; where the digits
of its numeral, and the power of ten with them, are numbers, it is the same number, and
otherwise one at most two ranks away, or three below the least power of ten.  The other
numbers are written as null, and do not come back. -/
theorem json_faithful :
    (∀ i : Int64, ofJsonText? (integer i).toJson.spelling = some (integer i)) ∧
    (∀ s : String, ofJsonText? (text s).toJson.spelling = some (text s)) ∧
    (∀ (negative : Bool) (rank : Nat) (h : rank < rankLimit),
      ∃ (scaled : Nat) (hscaled : scaled < rankLimit),
        ofJsonText? (float (.finite negative rank h)).toJson.spelling =
          some (float (.finite negative scaled hscaled)) ∧
        ((jsonFormat.numeral negative rank).IsExact → scaled = rank) ∧
        Nat.dist scaled rank ≤
          scaledMiss (jsonFormat.numeral negative rank).magnitude.exponent) ∧
    ∀ x ∈ [Binary64.nan, .infinity false, .infinity true],
      (float x).toJson.spelling = "null" ∧ ofJsonText? (float x).toJson.spelling = none := by
  refine ⟨?_, ?_, ?_, ?_⟩
  · intro i
    rw [ofJsonText?_spelling, toJson, ofJson?, ofNumeral?_integerNumeral]
  · intro s
    rw [ofJsonText?_spelling]
    rfl
  · intro negative rank h
    rw [ofJsonText?_spelling]
    exact ofJson?_finite negative h
  · intro x hx
    have hnull : (float x).toJson = Json.null := by
      simp only [List.mem_cons, List.not_mem_nil, or_false] at hx
      rcases hx with rfl | rfl | rfl <;> rfl
    rw [ofJsonText?_spelling, hnull]
    exact ⟨by decide, rfl⟩

/-- Few digits and a small exponent are always exact, and null is never a number. -/
theorem json_sixty_thousand :
    ofJsonText? (float (.finite false 0x40ED4C0000000000 (by decide))).toJson.spelling =
        some (float (.finite false 0x40ED4C0000000000 (by decide))) ∧
      ofJsonText? (float .nan).toJson.spelling = none := by
  obtain ⟨scaled, hscaled, hread, hexact, -⟩ :=
    json_faithful.2.2.1 false 0x40ED4C0000000000 (by decide)
  have hsame : scaled = 0x40ED4C0000000000 :=
    hexact (Numeral.isExact_of_le (by decide +kernel) (by decide +kernel))
  subst hsame
  exact ⟨hread, (json_faithful.2.2.2 .nan List.mem_cons_self).2⟩

/-- A whole number below `2 ^ 53` comes back as the one before it: with the zero behind the
point its digits are seventeen, and rounded before they are scaled. -/
theorem json_neighbor :
    (float (.ofBits 0x433FFFFFFFFFFFFF)).toJson.spelling = "9007199254740991.0" ∧
      ofJsonText? (float (.ofBits 0x433FFFFFFFFFFFFF)).toJson.spelling =
        some (float (.ofBits 0x433FFFFFFFFFFFFE)) ∧
      float (.ofBits 0x433FFFFFFFFFFFFE) ≠ float (.ofBits 0x433FFFFFFFFFFFFF) := by
  have hspelling : (float (.ofBits 0x433FFFFFFFFFFFFF)).toJson.spelling = "9007199254740991.0" := by
    decide +kernel
  rw [hspelling]
  exact ⟨rfl, by decide +kernel, by decide +kernel⟩

end Value

end RuleEngine
