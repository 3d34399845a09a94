import RuleEngine.Proofs.ExactOrder
import RuleEngine.Proofs.IntegerText
import RuleEngine.Rule.Split
import RuleEngine.Rule.Verdict

/-!
# Integers against a written integer

A condition may compare a field with an integer in decimal.  To order the field the
literal is read as a binary64 number, so the field is not ordered against the integer
that is written but against the **threshold** that it is rounded to, which is an
integer as well.  Against that the order is exact.  To be equal the field must have
the text of the integer that is written, and that is not rounded.

Up to `2 ^ 53` nothing is rounded, and one of the three comparisons holds.  Beyond, an
integer between two numbers is equal to itself and at the same time greater than
itself, or less; and for the value of its threshold none of the three holds.

* `threshold`, `IsNearest` — the integer that is compared with, and what it is;
* `Rule.verdict_greater`, `Rule.verdict_less`, `Rule.verdict_equal` — each of the
  three comparisons;
* `Rule.verdict_threshold` — all of them, and when just one holds.
-/

namespace RuleEngine

open Binary64 Encoding

/-- The integer that an integer in a condition is rounded to. -/
def threshold (k : Int64) : Int := (ofInt k.toInt).toInt128

/-- An integer that is the value of an encoding, and none is nearer to `i`. -/
structure IsNearest (i t : Int) : Prop where
  encoded : ∃ bits, value bits = ((t : ℚ) : Extended)
  nearest : ∀ (bits : BitVec 64) (q : ℚ), value bits = (q : Extended) → |(t : ℚ) - i| ≤ |q - i|

/-! ## The threshold is nearest -/

/-- What is encoded is nearest to itself. -/
theorem IsNearest.eq_iff {i t : Int} (h : IsNearest i t) :
    t = i ↔ ∃ bits, value bits = ((i : ℚ) : Extended) := by
  constructor
  · rintro rfl
    exact h.encoded
  · rintro ⟨bits, hbits⟩
    have hnearest := h.nearest bits i hbits
    rw [sub_self, abs_zero, abs_nonpos_iff, sub_eq_zero] at hnearest
    exact_mod_cast hnearest

/-- A threshold stands where its integer is rounded to. -/
theorem unitsAt_threshold (k : Int64) :
    unitsAt (placeOfInt k.toInt) = threshold k * unitsInOne :=
  (toInt128_exact (place_ofInt64 k) (unitsInOne_dvd_placeOfInt k.toInt)
    (natAbs_placeOfInt_lt_bound k)).1

/-- A finite value is that of a place. -/
theorem unitsAt_of_value {bits : BitVec 64} {q : ℚ} (h : value bits = (q : Extended)) :
    ∃ p, (unitsAt p : ℚ) = q * unitsInOne := by
  have hbits : ¬ IsNaN bits := by
    rintro ⟨hexponent, -⟩
    rw [value, if_pos hexponent] at h
    split at h
    · cases h
    · cases h
  have hne : (unitsInOne : ℚ) ≠ 0 := by exact_mod_cast unitsInOne_pos.ne'
  rw [value_of_place (place_ofBits hbits), valueOfUnits] at h
  split at h
  · cases h
  · split at h
    · cases h
    · refine ⟨signed bits.msb (bits.toNat % signPlace), ?_⟩
      rw [← WithTop.coe_inj.mp (WithBot.coe_inj.mp h), div_mul_cancel₀ _ hne]

/-- **The threshold of an integer is the number nearest to it.** -/
theorem threshold_isNearest (k : Int64) : IsNearest k.toInt (threshold k) := by
  constructor
  · have hplace : (ofBits (ofInt k.toInt).toBits).place = some (placeOfInt k.toInt) := by
      rw [ofBits_toBits, place_ofInt64]
    refine ⟨(ofInt k.toInt).toBits, ?_⟩
    rw [value_toInt128 hplace (unitsInOne_dvd_placeOfInt k.toInt)
      (natAbs_placeOfInt_lt_bound k), ofBits_toBits, threshold]
  · intro bits q hq
    obtain ⟨p, hp⟩ := unitsAt_of_value hq
    have hpos : (0 : ℚ) < unitsInOne := by exact_mod_cast unitsInOne_pos
    have hnearest := placeOfInt_nearest k.toInt p
    rw [unitsAt_threshold] at hnearest
    have hunits : |((threshold k * unitsInOne - k.toInt * unitsInOne : Int) : ℚ)| ≤
        |((unitsAt p - k.toInt * unitsInOne : Int) : ℚ)| := by
      rw [← Int.cast_abs, ← Int.cast_abs, Int.abs_eq_natAbs, Int.abs_eq_natAbs]
      exact_mod_cast hnearest
    push_cast at hunits
    rw [hp, ← sub_mul, ← sub_mul, abs_mul, abs_mul, abs_of_pos hpos] at hunits
    exact le_of_mul_le_mul_right hunits hpos

/-- Integers up to `2 ^ 53` are their own thresholds. -/
theorem threshold_eq {k : Int64} (h : k.toInt.natAbs ≤ 2 ^ 53) : threshold k = k.toInt := by
  have hunits := unitsAt_threshold k
  rw [unitsAt_placeOfInt h] at hunits
  exact (Int.eq_of_mul_eq_mul_right natCast_unitsInOne_pos.ne' hunits).symm

/-! ## The three comparisons -/

/-- A comparison that holds is the only one where the two others do not hold. -/
theorem existsUnique_of_others {holds : String → Prop} (chosen : String)
    (hmem : chosen ∈ [">", "<", "=="]) (hholds : holds chosen)
    (hothers : ∀ other ∈ [">", "<", "=="], other ≠ chosen → ¬ holds other) :
    ∃! comparison, comparison ∈ [">", "<", "=="] ∧ holds comparison := by
  refine ⟨chosen, ⟨hmem, hholds⟩, ?_⟩
  intro other hother
  by_contra hne
  exact hothers other hother.1 hne hother.2

section

variable {holds : String → Prop} {t i j : Int}

/-- Where the two are the same, or it is neither of them, just one comparison holds of an
integer that is ordered against the one and may be equal to the other. -/
theorem existsUnique_of_apart (hgreater : holds ">" ↔ t < i) (hless : holds "<" ↔ i < t)
    (hequal : holds "==" ↔ i = j) (h : t = j ∨ (i ≠ j ∧ i ≠ t)) :
    ∃! comparison, comparison ∈ [">", "<", "=="] ∧ holds comparison := by
  rcases lt_trichotomy t i with hlt | heq | hgt
  · refine existsUnique_of_others ">" (by simp) (hgreater.mpr hlt) ?_
    simp [hless, hequal]
    omega
  · refine existsUnique_of_others "==" (by simp) (hequal.mpr (by omega)) ?_
    simp [hgreater, hless]
    omega
  · refine existsUnique_of_others "<" (by simp) (hless.mpr hgt) ?_
    simp [hgreater, hequal]
    omega

/-- An integer that is one of two different ones has two comparisons or none. -/
theorem apart_of_existsUnique (hgreater : holds ">" ↔ t < i) (hless : holds "<" ↔ i < t)
    (hequal : holds "==" ↔ i = j)
    (h : ∃! comparison, comparison ∈ [">", "<", "=="] ∧ holds comparison) :
    t = j ∨ (i ≠ j ∧ i ≠ t) := by
  obtain ⟨comparison, ⟨hmem, hholds⟩, hunique⟩ := h
  simp only [List.mem_cons, List.not_mem_nil, or_false] at hmem hunique
  by_contra hnot
  rw [not_or, not_and_or, not_not, not_not] at hnot
  obtain ⟨hne, rfl | rfl⟩ := hnot
  · -- the integer that is written is equal to itself, and on one side of the other
    have hself := hunique "==" ⟨.inr (.inr rfl), hequal.mpr rfl⟩
    rcases lt_or_gt_of_ne hne with hbelow | habove
    · exact absurd ((hunique ">" ⟨.inl rfl, hgreater.mpr hbelow⟩).trans hself.symm) (by decide)
    · exact absurd ((hunique "<" ⟨.inr (.inl rfl), hless.mpr habove⟩).trans hself.symm)
        (by decide)
  · -- the other is on no side of itself, and not equal to what is written
    rcases hmem with rfl | rfl | rfl
    · exact absurd (hgreater.mp hholds) (lt_irrefl _)
    · exact absurd (hless.mp hholds) (lt_irrefl _)
    · exact hne (hequal.mp hholds)

/-- **Just one of the three comparisons holds** where the two integers are the same, and
otherwise of every integer but them. -/
theorem existsUnique_comparison (hgreater : holds ">" ↔ t < i) (hless : holds "<" ↔ i < t)
    (hequal : holds "==" ↔ i = j) :
    (∃! comparison, comparison ∈ [">", "<", "=="] ∧ holds comparison) ↔
      t = j ∨ (i ≠ j ∧ i ≠ t) :=
  ⟨apart_of_existsUnique hgreater hless hequal, existsUnique_of_apart hgreater hless hequal⟩

end

/-- The text that compares a field with an integer. -/
def comparisonText (field comparison : String) (k : Int64) : String :=
  spaced [field, comparison, (Value.integer k).display]

namespace Rule

variable {record : Record} {field : String} {v k : Int64}

/-- Three words of which none is a keyword are one condition. -/
theorem verdict_of_words {text comparison literal : String}
    (hwords : words text = [field, comparison, literal])
    (hkeyword : ∀ c : Connective, field ≠ c.keyword)
    (hcomparison : comparison ∈ [">", "<", "=="])
    (hliteral : ∀ c : Connective, literal ≠ c.keyword) :
    (ofText text).verdict record =
      Condition.verdict ⟨field, .ofWord comparison, literal⟩ record := by
  have hsign : ∀ c : Connective, comparison ≠ c.keyword := by
    simp only [List.mem_cons, List.not_mem_nil, or_false] at hcomparison
    intro c
    rcases hcomparison with rfl | rfl | rfl
    all_goals cases c <;> simp [Connective.keyword]
  have hoperand : ofText text = operand text := by
    apply ofText_of_not_mem
    intro c
    rw [hwords]
    simpa using ⟨Ne.symm (hkeyword c), Ne.symm (hsign c), Ne.symm (hliteral c)⟩
  rw [hoperand, verdict_operand, verdictOfText_of_words hwords]

/-- The text of a comparison has three words. -/
theorem verdict_comparisonText (hfield : IsWord field.toList)
    (hkeyword : ∀ c : Connective, field ≠ c.keyword) {comparison : String}
    (hcomparison : comparison ∈ [">", "<", "=="]) :
    (ofText (comparisonText field comparison k)).verdict record =
      Condition.verdict ⟨field, .ofWord comparison, (Value.integer k).display⟩ record := by
  have hsign : IsWord comparison.toList := by
    simp only [List.mem_cons, List.not_mem_nil, or_false] at hcomparison
    rcases hcomparison with rfl | rfl | rfl
    all_goals decide
  have hliteral : IsWord (Value.integer k).display.toList := by
    rw [Value.display, String.toList_ofList]
    exact isWord_integerText k.toInt
  have hwords : words (comparisonText field comparison k) =
      [field, comparison, (Value.integer k).display] := by
    apply words_spaced
    simpa using ⟨hfield, hsign, hliteral⟩
  exact verdict_of_words hwords hkeyword hcomparison (integerText_ne_keyword k.toInt)

/-- The text of a negative integer starts with its sign. -/
example : comparisonText "x" ">" (-42) = "x > -42" := by cbv

/-- An integer is ordered against the threshold. -/
theorem order_threshold (comparison : Comparison) :
    Condition.order ⟨field, comparison, (Value.integer k).display⟩ (.integer v) =
      .ok (some (compare v.toInt (threshold k))) := by
  rw [Condition.order, Value.display, readLiteral?_integerText]
  dsimp only
  rw [Value.compareNumber_integer (place_ofInt64 k), unitsAt_threshold, compare_mul_unitsInOne]

section

variable (hfield : IsWord field.toList) (hkeyword : ∀ c : Connective, field ≠ c.keyword)
  (hvalue : record.get? field = some (.integer v))

include hfield hkeyword hvalue

/-- By `>` a value is compared with the threshold. -/
theorem verdict_greater :
    (ofText (comparisonText field ">" k)).verdict record = .ok (decide (threshold k < v.toInt)) := by
  have hcomparison : Comparison.ofWord ">" = .greater := by decide
  have horder : some (compare v.toInt (threshold k)) = some .gt ↔ threshold k < v.toInt := by
    rw [Option.some.injEq, compare_gt_iff_gt]
  rw [verdict_comparisonText hfield hkeyword (by decide), Condition.verdict, hvalue, hcomparison]
  dsimp only
  rw [order_threshold, Except.map, decide_eq_decide.mpr horder]

/-- By `<` a value is compared with the threshold. -/
theorem verdict_less :
    (ofText (comparisonText field "<" k)).verdict record = .ok (decide (v.toInt < threshold k)) := by
  have hcomparison : Comparison.ofWord "<" = .less := by decide
  have horder : some (compare v.toInt (threshold k)) = some .lt ↔ v.toInt < threshold k := by
    rw [Option.some.injEq, compare_lt_iff_lt]
  rw [verdict_comparisonText hfield hkeyword (by decide), Condition.verdict, hvalue, hcomparison]
  dsimp only
  rw [order_threshold, Except.map, decide_eq_decide.mpr horder]

/-- By `==` a value is compared with the integer itself. -/
theorem verdict_equal :
    (ofText (comparisonText field "==" k)).verdict record = .ok (decide (v = k)) := by
  have hcomparison : Comparison.ofWord "==" = .equal := by decide
  have hdisplay : (Value.integer v).display = Condition.unquoted (Value.integer k).display ↔
      v = k := by
    rw [Value.display, Value.display, unquoted_integerText, String.ofList_inj,
      integerText_injective.eq_iff, Int64.toInt_inj]
  rw [verdict_comparisonText hfield hkeyword (by decide), Condition.verdict, hvalue, hcomparison]
  dsimp only
  rw [decide_eq_decide.mpr hdisplay]

/-- **An integer in a condition is compared with its threshold,** the number nearest to
it, and for equality with itself.  The threshold is the integer itself where that is a
number, and so up to `2 ^ 53`.  Just one of the three comparisons holds where this is
so, and otherwise of every value but the integer and its threshold. -/
theorem verdict_threshold :
    IsNearest k.toInt (threshold k) ∧
    (threshold k = k.toInt ↔ ∃ bits, value bits = ((k.toInt : ℚ) : Extended)) ∧
    (k.toInt.natAbs ≤ 2 ^ 53 → threshold k = k.toInt) ∧
    (ofText (comparisonText field ">" k)).verdict record =
      .ok (decide (v.toInt > threshold k)) ∧
    (ofText (comparisonText field "<" k)).verdict record =
      .ok (decide (v.toInt < threshold k)) ∧
    (ofText (comparisonText field "==" k)).verdict record = .ok (decide (v = k)) ∧
    ((∃! comparison, comparison ∈ [">", "<", "=="] ∧
        (ofText (comparisonText field comparison k)).verdict record = .ok true) ↔
      threshold k = k.toInt ∨ (v ≠ k ∧ v.toInt ≠ threshold k)) := by
  have hgreater := verdict_greater (k := k) hfield hkeyword hvalue
  have hless := verdict_less (k := k) hfield hkeyword hvalue
  have hequal := verdict_equal (k := k) hfield hkeyword hvalue
  refine ⟨threshold_isNearest k, (threshold_isNearest k).eq_iff, threshold_eq, hgreater, hless,
    hequal, ?_⟩
  rw [← Int64.toInt_inj.ne]
  apply existsUnique_comparison
  · rw [hgreater, Except.ok.injEq, decide_eq_true_eq]
  · rw [hless, Except.ok.injEq, decide_eq_true_eq]
  · rw [hequal, Except.ok.injEq, decide_eq_true_eq, Int64.toInt_inj]

end

/-- The name of a field that no keyword is. -/
theorem isWord_x : IsWord "x".toList ∧ ∀ c : Connective, "x" ≠ c.keyword := by
  refine ⟨by decide, fun c => ?_⟩
  cases c <;> simp [Connective.keyword]

/-- Up to `2 ^ 53` the comparison is with the integer that is written. -/
theorem verdict_threshold_five :
    (ofText (comparisonText "x" "<" 5)).verdict (Record.empty.insert "x" (.integer 3)) =
      .ok true := by
  obtain ⟨-, -, hexact, -, hless, -⟩ := verdict_threshold (k := 5) isWord_x.1 isWord_x.2
    (Record.get?_insert_self .empty "x" (.integer 3))
  rw [hless, hexact (by decide)]
  rfl

/-- Beyond, an integer may be greater than itself. -/
theorem verdict_greater_and_equal :
    (ofText "x > 9007199254740993").verdict
        (Record.empty.insert "x" (.integer 9007199254740993)) = .ok true ∧
      (ofText "x == 9007199254740993").verdict
        (Record.empty.insert "x" (.integer 9007199254740993)) = .ok true ∧
      ¬ (9007199254740993 : Int64) > 9007199254740993 := by
  have hvalue := Record.get?_insert_self .empty "x" (.integer 9007199254740993)
  have hgreater : "x > 9007199254740993" = comparisonText "x" ">" 9007199254740993 := by
    decide +kernel
  have hequal : "x == 9007199254740993" = comparisonText "x" "==" 9007199254740993 := by
    decide +kernel
  have hthreshold : threshold 9007199254740993 = 9007199254740992 := by decide +kernel
  refine ⟨?_, ?_, by decide⟩
  · rw [hgreater, verdict_greater isWord_x.1 isWord_x.2 hvalue, hthreshold]
    rfl
  · rw [hequal, verdict_equal isWord_x.1 isWord_x.2 hvalue]
    rfl

end Rule

end RuleEngine
