import RuleEngine.Condition
import RuleEngine.Connective
import RuleEngine.Proofs.DecimalRank
import RuleEngine.Proofs.LiteralForms
import RuleEngine.Proofs.Trimming
import RuleEngine.Value.Json

/-!
# Integers in decimal

An integer is written as its decimal digits behind a minus sign, if it has one.  This is
the numeral of an integer, without fraction and exponent.  In a condition such a text is
used in two ways.  It is compared, as it stands, with the display of a value; and it is
read as a number.  Written integers differ wherever the integers do, so the first is the
equality of integers.  The second is not the order of integers: what is read is the
number nearest to the integer.

* `integerText_eq_text` — an integer is written as its numeral;
* `isWord_integerText`, `unquoted_integerText` — an integer is one word, and has no
  quotes to take off;
* `integerText_injective` — it is told from its text;
* `readLiteral?_integerText` — and read as the nearest number.
-/

namespace RuleEngine

/-! ## Integers as text -/

/-- **An integer is written as its numeral,** whatever the width of exponents. -/
theorem integerText_eq_text (width : Nat) (i : Int) :
    integerText i = (Value.integerNumeral i).text width := by
  rw [integerText, Value.integerNumeral, Numeral.text]
  by_cases h : i < 0 <;> simp [h]

/-- An integer is written with digits, and with a minus perhaps. -/
theorem mem_integerText {i : Int} {c : Char} (h : c ∈ integerText i) :
    c = '-' ∨ ∃ d : Digit, c = d.toChar := by
  have hdigit : c ∈ naturalText i.natAbs → ∃ d : Digit, c = d.toChar := by
    intro hc
    obtain ⟨d, -, hd⟩ := List.mem_map.mp hc
    exact ⟨d, hd.symm⟩
  unfold integerText at h
  split at h
  · rcases List.mem_cons.mp h with hsign | hc
    · exact .inl hsign
    · exact .inr (hdigit hc)
  · exact .inr (hdigit h)

/-- What is neither the sign nor a digit is not in the text of an integer. -/
theorem not_mem_integerText {c : Char} (hsign : c ≠ '-') (hdigit : digitOfChar? c = none)
    (i : Int) : c ∉ integerText i := by
  intro hc
  rcases mem_integerText hc with hminus | ⟨d, hd⟩
  · exact hsign hminus
  · exact ne_toChar hdigit d hd.symm

/-- An integer is one word. -/
theorem isWord_integerText (i : Int) : IsWord (integerText i) := by
  rw [integerText_eq_text 0]
  exact Numeral.isWord_text 0 _

/-- **An integer is told from its text.** -/
theorem integerText_injective : Function.Injective integerText := by
  intro i j h
  have hbody (k : Int) : (Value.integerNumeral k).body 0 = naturalText k.natAbs := by
    rw [Numeral.body]
    exact List.append_nil _
  have hparts := congrArg splitSign h
  rw [integerText_eq_text 0, integerText_eq_text 0, Numeral.splitSign_text,
    Numeral.splitSign_text, hbody, hbody] at hparts
  have hsign : decide (i < 0) = decide (j < 0) := congrArg Prod.fst hparts
  have hsize : i.natAbs = j.natAbs := naturalText_injective (congrArg Prod.snd hparts)
  rw [decide_eq_decide] at hsign
  omega

/-- No integer is written as a keyword. -/
theorem integerText_ne_keyword (i : Int) (c : Connective) :
    String.ofList (integerText i) ≠ c.keyword := by
  intro heq
  have hletter : ∃ letter ∈ c.keyword.toList, letter ≠ '-' ∧ digitOfChar? letter = none := by
    cases c with
    | and => exact ⟨'A', by decide, by decide, by decide⟩
    | or => exact ⟨'O', by decide, by decide, by decide⟩
  obtain ⟨letter, hmem, hsign, hdigit⟩ := hletter
  rw [← heq, String.toList_ofList] at hmem
  exact not_mem_integerText hsign hdigit i hmem

/-! ## Taking quotes off -/

/-- A literal without quotes is compared as it stands. -/
theorem unquoted_of_not_mem {literal : String} (h : '\x27' ∉ literal.toList) :
    Condition.unquoted literal = literal := by
  have hquote : ∀ c ∈ literal.toList, decide (c = '\x27') = false := by
    intro c hc
    rw [decide_eq_false_iff_not]
    rintro rfl
    exact h hc
  rw [Condition.unquoted, trimWhere_of_not_mem hquote, String.ofList_toList]

theorem unquoted_integerText (i : Int) :
    Condition.unquoted (String.ofList (integerText i)) = String.ofList (integerText i) := by
  apply unquoted_of_not_mem
  rw [String.toList_ofList]
  exact not_mem_integerText (by decide) (by decide) i

/-! ## Reading an integer as a number -/

/-- The numeral of an integer says the integer. -/
theorem toBinary64_integerNumeral (i : Int) :
    (Value.integerNumeral i).toBinary64 = Binary64.ofInt i := by
  have hmagnitude : (Value.integerNumeral i).magnitude = ⟨i.natAbs, 0⟩ := rfl
  have hexponent : tenPow (0 : Int).toNat = 1 := rfl
  rw [Numeral.toBinary64, hmagnitude, Decimal.toBinary64_eq, Decimal.rank, Int.neg_zero,
    hexponent, Nat.mul_one, Binary64.ofInt, Binary64.ofRatio]
  rfl

/-- **An integer in decimal is read as the number nearest to it.** -/
theorem readLiteral?_integerText (i : Int) :
    readLiteral? (String.ofList (integerText i)) = some (.ofInt i) := by
  rw [integerText_eq_text 0, readLiteral?_text, toBinary64_integerNumeral]

end RuleEngine
