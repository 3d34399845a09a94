import RuleEngine.Proofs.ExactOrder
import RuleEngine.Proofs.RecordBuilding
import RuleEngine.Proofs.ScaledRange
import RuleEngine.Proofs.ValueJson

/-!
# Number literals as field values

A number literal without fraction and exponent is an integer of sixty-four signed bits
exactly where its number is one, however many digits it has, and unless it is minus zero.
There is no third case: an integer that does not fit is not cut down to one that does, but
read as a floating number like any other literal, or not at all.

Not at all means that it is too large; but what is too large is decided by scaled reading,
and not by the number itself.  Three roundings away from the end of the finite numbers it
goes as it should.  Nearer to it there are literals below the largest finite number that are
not read.

* `Numeral.Writes` — a numeral that writes an integer;
* `Value.ofNumeral?_eq_integer_iff` — it is read as this integer where that fits;
* `Value.integer_or_float` — and as a floating number, or not at all, everywhere else;
* `Value.ofJsonText?_literal` — number literals, alone and in the fields of a record;
* `Value.ofJsonText?_near_largest` — a literal that is not too large, and not read.
-/

namespace RuleEngine

/-! ## Integers of sixty-four bits -/

/-- An integer has sixty-four bits where some signed integer of so many bits is equal to it. -/
theorem int64?_eq_some_iff {k : Int} {i : Int64} : int64? k = some i ↔ i.toInt = k := by
  constructor
  · intro h
    have hmin : Int64.minValue.toInt = -2 ^ 63 := by decide
    have hmax : Int64.maxValue.toInt = 2 ^ 63 - 1 := by decide
    rw [int64?, hmin, hmax] at h
    split at h
    · rename_i hfits
      rw [← Option.some.inj h]
      exact Int64.toInt_ofInt_of_le hfits.1 (by omega)
    · cases h
  · intro h
    subst h
    exact Value.int64?_toInt i

/-- The integers that fit are those from `-2 ^ 63` to `2 ^ 63 - 1`. -/
theorem exists_int64_iff {k : Int} :
    (∃ i : Int64, i.toInt = k) ↔ -2 ^ 63 ≤ k ∧ k ≤ 2 ^ 63 - 1 := by
  constructor
  · intro h
    obtain ⟨i, rfl⟩ := h
    have hlow := i.le_toInt
    have hhigh := i.toInt_lt
    omega
  · intro h
    exact ⟨Int64.ofInt k, Int64.toInt_ofInt_of_le h.1 (by omega)⟩

namespace Numeral

/-! ## Integers that are written -/

/-- The number that a numeral says, exactly. -/
def value (n : Numeral) : ℚ := if n.negative then -n.magnitude.value else n.magnitude.value

/-- A numeral writes an integer: it has no fraction and no exponent, it is not minus zero,
and the integer is its number. -/
structure Writes (n : Numeral) (k : Int) : Prop where
  fraction : n.fraction = []
  exponent : n.exponent = none
  notMinusZero : ¬ (n.negative = true ∧ n.whole = 0)
  value : n.value = k

variable {n : Numeral} {k : Int}

/-- What has neither fraction nor exponent says its whole part. -/
theorem value_eq_signed (hfraction : n.fraction = []) (hexponent : n.exponent = none) :
    n.value = (signed n.negative n.whole : Int) := by
  have hmagnitude : n.magnitude.value = n.whole := by
    rw [magnitude, Decimal.value, hfraction, hexponent]
    simp [valueFrom]
  rw [value, hmagnitude]
  cases n.negative <;> simp

/-- A numeral is read as the integer that it writes, and as no other. -/
theorem integer?_eq_some_iff : n.integer? = some k ↔ n.Writes k := by
  constructor
  · intro h
    unfold integer? at h
    split at h
    · rename_i hwritten
      have hfraction := List.isEmpty_iff.mp hwritten.1
      have hexponent := Option.isNone_iff_eq_none.mp hwritten.2.1
      refine ⟨hfraction, hexponent, hwritten.2.2, ?_⟩
      rw [value_eq_signed hfraction hexponent, Option.some.inj h]
    · cases h
  · intro h
    have hvalue : signed n.negative n.whole = k := by
      exact_mod_cast (value_eq_signed h.fraction h.exponent).symm.trans h.value
    rw [integer?, if_pos ⟨by simp [h.fraction], by simp [h.exponent], h.notMinusZero⟩, hvalue]

/-- An integer that fits is far from the end of the finite numbers. -/
theorem Writes.magnitude_lt {i : Int64} (h : n.Writes i.toInt) :
    n.magnitude.value < 1797693134862315 * 10 ^ 293 := by
  have hsize : n.magnitude.value ≤ 2 ^ 63 := by
    have hvalue := h.value
    have hi : -2 ^ 63 ≤ (i.toInt : ℚ) ∧ (i.toInt : ℚ) ≤ 2 ^ 63 := by
      constructor
      · exact_mod_cast i.le_toInt
      · exact_mod_cast i.toInt_lt.le
    rw [Numeral.value] at hvalue
    split at hvalue <;> linarith only [hvalue, hi.1, hi.2]
  have hten : (10 : ℚ) ^ 4 ≤ 10 ^ 293 := pow_le_pow_right₀ (by norm_num) (by norm_num)
  calc n.magnitude.value ≤ 2 ^ 63 := hsize
    _ < 1797693134862315 * 10 ^ 4 := by norm_num
    _ ≤ 1797693134862315 * 10 ^ 293 := mul_le_mul_of_nonneg_left hten (by norm_num)

end Numeral

/-! ## A number near the largest -/

/-- A decimal without places behind the point is below a number where its units are. -/
theorem Decimal.value_lt_rankValue {digits places rank : Nat}
    (h : digits * tenPow places * unitsInOne < unitsOfRank rank) :
    (mk digits places).value < rankValue rank := by
  rw [value, rankValue, lt_div_iff₀ unitsInOne_cast_pos, zpow_natCast, ← tenPow_eq_pow]
  exact_mod_cast h

/-- A number below the largest finite one. -/
def Numeral.belowLargest : Numeral := ⟨false, 1797693134862315649, [], some 290⟩

theorem Numeral.belowLargest_lt : belowLargest.magnitude.value < rankValue (rankLimit - 1) := by
  have hmagnitude : belowLargest.magnitude = ⟨1797693134862315649, (290 : Nat)⟩ := by decide
  rw [hmagnitude]
  exact Decimal.value_lt_rankValue (by decide +kernel)

namespace Value

open Binary64 Encoding

variable {n : Numeral}

/-! ## What a numeral is read as -/

/-- **An integer is read where one that fits is written.** -/
theorem ofNumeral?_eq_integer_iff {i : Int64} :
    ofNumeral? n = some (integer i) ↔ n.Writes i.toInt := by
  have hwritten : n.integer?.bind int64? = some i ↔ n.Writes i.toInt := by
    rw [← Numeral.integer?_eq_some_iff, Option.bind_eq_some_iff]
    constructor
    · intro h
      obtain ⟨k, hk, hi⟩ := h
      rwa [int64?_eq_some_iff.mp hi]
    · intro h
      exact ⟨i.toInt, h, int64?_toInt i⟩
  rw [← hwritten]
  unfold ofNumeral?
  split
  · rename_i other hother
    rw [hother, Option.some.injEq, Option.some.injEq, integer.injEq]
  · rename_i hnone
    rw [hnone]
    simp

/-- Where none is, the numeral is read in scaled reading. -/
theorem ofNumeral?_of_not_integer (h : ∀ i : Int64, ¬ n.Writes i.toInt) :
    ofNumeral? n = n.scaled?.map float := by
  unfold ofNumeral?
  split
  · rename_i i hi
    obtain ⟨k, hk, hfits⟩ := Option.bind_eq_some_iff.mp hi
    rw [← int64?_eq_some_iff.mp hfits] at hk
    exact absurd (Numeral.integer?_eq_some_iff.mp hk) (h i)
  · rfl

/-- **What is read is an integer or a finite floating number** of the sign that is
written. -/
theorem integer_or_float {v : Value} (h : ofNumeral? n = some v) :
    (∃ i, v = integer i) ∨
      ∃ (rank : Nat) (hrank : rank < rankLimit), v = float (.finite n.negative rank hrank) := by
  by_cases hinteger : ∃ i : Int64, n.Writes i.toInt
  · obtain ⟨i, hi⟩ := hinteger
    rw [ofNumeral?_eq_integer_iff.mpr hi] at h
    exact .inl ⟨i, (Option.some.inj h).symm⟩
  · rw [ofNumeral?_of_not_integer (not_exists.mp hinteger)] at h
    obtain ⟨x, hx, rfl⟩ := Option.map_eq_some_iff.mp h
    obtain ⟨rank, hrank, rfl⟩ := Numeral.finite_of_scaled? hx
    exact .inr ⟨rank, hrank, rfl⟩

/-- **Something is read just where scaled reading does not fail;** an integer that fits is
small enough for that. -/
theorem ofNumeral?_ne_none_iff : ofNumeral? n ≠ none ↔ n.scaled?.isSome := by
  by_cases hinteger : ∃ i : Int64, n.Writes i.toInt
  · obtain ⟨i, hi⟩ := hinteger
    obtain ⟨x, hx⟩ := Numeral.exists_scaled_of_lt hi.magnitude_lt
    simp [ofNumeral?_eq_integer_iff.mpr hi, hx]
  · rw [ofNumeral?_of_not_integer (not_exists.mp hinteger), Option.isSome_iff_ne_none, Ne, Ne,
      Option.map_eq_none_iff]

/-- Below the end of the finite numbers something is read. -/
theorem ofNumeral?_ne_none (h : n.magnitude.value < 1797693134862315 * 10 ^ 293) :
    ofNumeral? n ≠ none := by
  obtain ⟨x, hx⟩ := Numeral.exists_scaled_of_lt h
  rw [ofNumeral?_ne_none_iff, hx]
  rfl

/-- Beyond the end of the finite numbers nothing is read. -/
theorem ofNumeral?_eq_none (h : 1797693134862317 * 10 ^ 293 ≤ n.magnitude.value) :
    ofNumeral? n = none := by
  by_contra hread
  have hscaled := ofNumeral?_ne_none_iff.mp hread
  rw [Numeral.scaled?_eq_none_of_le h] at hscaled
  cases hscaled

/-! ## Literals -/

/-- What is scanned to its end is a number. -/
theorem numberForm_of_scanNumeral? {text : List Char} (h : scanNumeral? text = some (n, [])) :
    NumberForm text n := by
  obtain ⟨lexeme, htext, hform⟩ := exists_number_of_scanNumeral? h
  rwa [htext, List.append_nil]

/-- A literal is read as its numeral. -/
theorem ofJsonText?_of_numberForm {literal : String} (h : NumberForm literal.toList n) :
    ofJsonText? literal = ofNumeral? n := by
  have hspelled : Spelled [.scalar (.number n)] ([] ++ (literal.toList ++ [])) :=
    .cons nofun (.number h) (.nil nofun)
  rw [List.nil_append, List.append_nil] at hspelled
  have hjson : Json.ofText? literal = some (.scalar (.number n)) :=
    Json.ofText?_eq_some_iff.mpr (by rwa [Json.tokens])
  rw [ofJsonText?, hjson, Option.bind_some, ofJson?]

/-- **Number literals as field values.**  A literal is read as an integer exactly where it
has no fraction and no exponent, is not minus zero, and its number fits sixty-four signed
bits; and then it is that integer.  Anything else that is read is a finite floating number
of its sign.  Nothing is read from literals beyond the end of the finite numbers, and
something from those before it, by a margin on both sides.  A field of a record is what the
literal of its last member is by itself; and where that is an integer, it is compared by the
exact number of the literal. -/
theorem ofJsonText?_literal {literal : String} (h : NumberForm literal.toList n) :
    (∀ k : Int, (∃ i : Int64, i.toInt = k ∧ ofJsonText? literal = some (integer i)) ↔
      n.Writes k ∧ -2 ^ 63 ≤ k ∧ k ≤ 2 ^ 63 - 1) ∧
    (∀ v, ofJsonText? literal = some v → (∃ i, v = integer i) ∨
      ∃ (rank : Nat) (hrank : rank < rankLimit), v = float (.finite n.negative rank hrank)) ∧
    (n.magnitude.value < 1797693134862315 * 10 ^ 293 → ofJsonText? literal ≠ none) ∧
    (1797693134862317 * 10 ^ 293 ≤ n.magnitude.value → ofJsonText? literal = none) ∧
    (∀ (text : String) (members : List (String × Json)) (record : Record) (name : String),
      Spelled (Record.objectOf members).tokens text.toList →
      Record.ofJsonText? text = some record →
      LastOf members name (.scalar (.number n)) → record.get? name = ofJsonText? literal) ∧
    ∀ i, ofJsonText? literal = some (integer i) → ∀ bits, ¬ IsNaN bits →
      (integer i).compareNumber (ofBits bits) =
        some (cmp ((n.value : ℚ) : Extended) (Encoding.value bits)) := by
  rw [ofJsonText?_of_numberForm h]
  refine ⟨fun k => ?_, fun v => integer_or_float, ofNumeral?_ne_none, ofNumeral?_eq_none,
    fun text members record name hspelled hread hlast => ?_, fun i hi bits hbits => ?_⟩
  · constructor
    · intro h
      obtain ⟨i, rfl, hi⟩ := h
      exact ⟨ofNumeral?_eq_integer_iff.mp hi, exists_int64_iff.mp ⟨i, rfl⟩⟩
    · intro h
      obtain ⟨hwrites, hfits⟩ := h
      obtain ⟨i, rfl⟩ := exists_int64_iff.mpr hfits
      exact ⟨i, rfl, ofNumeral?_eq_integer_iff.mpr hwrites⟩
  · rw [Record.get?_of_ofJsonText? hspelled hread hlast, ofJson?]
  · have hvalue := (ofNumeral?_eq_integer_iff.mp hi).value
    rw [compareNumber_integer (place_ofBits hbits), ← cmp_integer_value hbits, hvalue]

/-- The least integer that fits. -/
theorem ofJsonText?_literal_least :
    ofJsonText? "-9223372036854775808" = some (integer (-9223372036854775808)) := by
  let n : Numeral := ⟨true, 9223372036854775808, [], none⟩
  have htext : n.text 1 = "-9223372036854775808".toList := by decide +kernel
  have hwrites : n.Writes (-9223372036854775808) :=
    ⟨rfl, rfl, by decide, by rw [Numeral.value_eq_signed rfl rfl]; norm_num [n]⟩
  obtain ⟨i, hi, hread⟩ := ((ofJsonText?_literal (htext ▸ n.numberForm_text 1)).1
    (-9223372036854775808)).mpr ⟨hwrites, by decide, by decide⟩
  have hleast : i = -9223372036854775808 := Int64.toInt_inj.mp (by rw [hi]; rfl)
  rw [hread, hleast]

/-- A number below the largest is not read, though it is nearest to the largest: its digits
are rounded up before they are scaled, and that takes them beyond the end. -/
theorem ofJsonText?_near_largest :
    NumberForm "1797693134862315649e290".toList Numeral.belowLargest ∧
      Numeral.belowLargest.magnitude.value < rankValue (rankLimit - 1) ∧
      Numeral.belowLargest.toBinary64 = .ofRank false (rankLimit - 1) ∧
      ofJsonText? "1797693134862315649e290" = none := by
  have hscan : scanNumeral? "1797693134862315649e290".toList = some (.belowLargest, []) := by
    decide +kernel
  exact ⟨numberForm_of_scanNumeral? hscan, Numeral.belowLargest_lt, by decide +kernel,
    by decide +kernel⟩

end Value

end RuleEngine
