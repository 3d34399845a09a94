import RuleEngine.Proofs.DecimalRank
import RuleEngine.Proofs.Thresholds

/-!
# Floating numbers as text

A finite number is written as the shortest numeral that reads back to it, and the
infinities and not a number as words.  The literals of conditions know all these texts,
so what is displayed is read as the number that was displayed, the sign of zero included.
Hence no two numbers have one text.  And none has the text of an integer, for a numeral
of a floating number has a fraction or an exponent, and an integer has neither.

A value therefore is equal, in a condition, to its own text only; and ordered against it,
it is neither greater nor less.

* `Binary64.toBits_ofBits` — an encoding is that of its number;
* `NumberFormat.numeral_marked` — a floating number is written with a point or a mark;
* `readLiteral?_displayFloat`, `displayFloat_injective` — a number is told from its text;
* `displayFloat_ne_integerText` — which is no integer's;
* `Value.display_faithful` — the two kinds of numbers, encodings and conditions together.
-/

namespace RuleEngine

open Encoding

/-! ## Encodings -/

namespace Binary64

/-- The encoding of a rank is the rank, and half of all encodings more where there is a minus. -/
theorem toBits_ofRank (negative : Bool) {rank : Nat} (h : rank ≤ rankLimit) :
    toBits (ofRank negative rank) = BitVec.ofNat 64 (negative.toNat * signPlace + rank) := by
  unfold ofRank
  split
  · rfl
  · rename_i hnot
    have hrank : rank = rankLimit := Nat.le_antisymm h (Nat.not_lt.mp hnot)
    rw [hrank]
    rfl

/-- A number has one encoding, unless it is not a number. -/
theorem toBits_ofBits {bits : BitVec 64} (h : ¬ IsNaN bits) : toBits (ofBits bits) = bits := by
  have hrank : bits.toNat % signPlace ≤ rankLimit := Nat.not_lt.mp (rankLimit_lt_iff.not.mpr h)
  have hlt : bits.toNat < 2 ^ 64 := bits.isLt
  have hsplit : bits.msb.toNat * signPlace + bits.toNat % signPlace = bits.toNat := by
    rw [BitVec.msb_eq_decide]
    simp only [signPlace]
    by_cases hsign : 2 ^ (64 - 1) ≤ bits.toNat
    · rw [decide_eq_true hsign, Bool.toNat_true]
      omega
    · rw [decide_eq_false hsign, Bool.toNat_false]
      omega
  rw [ofBits, if_neg (Nat.not_lt.mpr hrank), toBits_ofRank _ hrank, hsplit, BitVec.ofNat_toNat,
    BitVec.setWidth_eq]

/-- Encodings of one number are the same, or neither is of a number. -/
theorem ofBits_eq_iff {bits other : BitVec 64} :
    ofBits bits = ofBits other ↔ bits = other ∨ (IsNaN bits ∧ IsNaN other) := by
  constructor
  · intro h
    by_cases hbits : IsNaN bits
    · rw [ofBits_eq_nan_iff.mpr hbits] at h
      exact .inr ⟨hbits, ofBits_eq_nan_iff.mp h.symm⟩
    · have hother : ¬ IsNaN other := by
        rw [← ofBits_eq_nan_iff, ← h, ofBits_eq_nan_iff]
        exact hbits
      left
      rw [← toBits_ofBits hbits, h, toBits_ofBits hother]
  · rintro (rfl | ⟨hbits, hother⟩)
    · rfl
    · rw [ofBits_eq_nan_iff.mpr hbits, ofBits_eq_nan_iff.mpr hother]

end Binary64

/-! ## Numerals of floating numbers -/

namespace Numeral

theorem point_mem_text {n : Numeral} (width : Nat) (h : n.fraction ≠ []) : '.' ∈ n.text width := by
  obtain ⟨d, digits, hfraction⟩ := List.exists_cons_of_ne_nil h
  rw [text_eq, body, hfraction, fractionText_cons]
  simp

theorem mark_mem_text {n : Numeral} (width : Nat) (h : n.exponent ≠ none) :
    'e' ∈ n.text width := by
  obtain ⟨e, hexponent⟩ := Option.ne_none_iff_exists'.mp h
  rw [text_eq, body, hexponent, exponentText?, exponentText]
  simp

end Numeral

/-- **A floating number is written with a point or a mark.** -/
theorem NumberFormat.numeral_marked (format : NumberFormat) (negative : Bool) (rank : Nat) :
    (format.numeral negative rank).fraction ≠ [] ∨
      (format.numeral negative rank).exponent ≠ none := by
  unfold numeral
  dsimp only
  split
  · left
    unfold positional
    split
    · exact List.append_ne_nil_of_right_ne_nil _ (digitsOf_ne_nil _)
    · dsimp only
      split
      · exact List.cons_ne_nil _ _
      · rename_i hfraction
        simpa using hfraction
  · right
    exact Option.some_ne_none _

/-! ## Displayed numbers -/

namespace Value

/-- **A displayed number is read as it was,** not a number and the infinities included. -/
theorem readLiteral?_displayFloat (x : Binary64) :
    readLiteral? (String.ofList (displayFloat x)) = some x := by
  cases x with
  | nan => decide
  | infinity negative =>
      cases negative
      all_goals decide
  | finite negative rank hrank =>
      rw [displayFloat, NumberFormat.finiteText, readLiteral?_text,
        NumberFormat.toBinary64_numeral, Binary64.ofRank, dif_pos hrank]

/-- **A number is told from its text.** -/
theorem displayFloat_injective : Function.Injective displayFloat := by
  intro x y h
  have hread := readLiteral?_displayFloat x
  rw [h, readLiteral?_displayFloat] at hread
  exact (Option.some.inj hread).symm

/-- What a floating number is written with, beside digits. -/
def floatLetters : List Char := ['-', '+', '.', 'e', 'i', 'n', 'f', 'a']

/-- Other characters than digits and these letters are in no displayed number. -/
theorem not_mem_displayFloat {c : Char} (hletter : c ∉ floatLetters)
    (hdigit : digitOfChar? c = none) (x : Binary64) : c ∉ displayFloat x := by
  cases x with
  | nan =>
      have hword : "nan".toList ⊆ floatLetters := by decide
      exact fun hc => hletter (hword hc)
  | infinity negative =>
      have hword : (if negative then "-inf".toList else "inf".toList) ⊆ floatLetters := by
        cases negative
        all_goals decide
      exact fun hc => hletter (hword hc)
  | finite negative rank hrank =>
      have hmark : ['-', '+', '.', 'e'] ⊆ floatLetters := by decide
      exact Numeral.not_mem_text _ _ (fun hc => hletter (hmark hc)) hdigit

/-- A displayed number is one word. -/
theorem isWord_displayFloat (x : Binary64) : IsWord (displayFloat x) := by
  cases x with
  | nan => decide
  | infinity negative =>
      cases negative
      all_goals decide
  | finite negative rank hrank => exact Numeral.isWord_text _ _

/-- **No integer has the text of a floating number.** -/
theorem displayFloat_ne_integerText (x : Binary64) (i : Int) : displayFloat x ≠ integerText i := by
  have hletter : ∃ c ∈ displayFloat x, c ≠ '-' ∧ digitOfChar? c = none := by
    cases x with
    | nan => exact ⟨'n', by decide⟩
    | infinity negative =>
        cases negative
        all_goals exact ⟨'i', by decide⟩
    | finite negative rank hrank =>
        rcases displayFormat.numeral_marked negative rank with hpoint | hmark
        · exact ⟨'.', Numeral.point_mem_text _ hpoint, by decide⟩
        · exact ⟨'e', Numeral.mark_mem_text _ hmark, by decide⟩
  obtain ⟨c, hmem, hsign, hdigit⟩ := hletter
  intro heq
  rw [heq] at hmem
  exact not_mem_integerText hsign hdigit i hmem

/-- A displayed number is no keyword. -/
theorem displayFloat_ne_keyword (x : Binary64) (c : Connective) :
    String.ofList (displayFloat x) ≠ c.keyword := by
  intro heq
  have hletter : ∃ letter ∈ c.keyword.toList,
      letter ∉ floatLetters ∧ digitOfChar? letter = none := by
    cases c with
    | and => exact ⟨'A', by decide⟩
    | or => exact ⟨'O', by decide⟩
  obtain ⟨letter, hmem, hsign, hdigit⟩ := hletter
  rw [← heq, String.toList_ofList] at hmem
  exact not_mem_displayFloat hsign hdigit x hmem

theorem unquoted_displayFloat (x : Binary64) :
    Condition.unquoted (String.ofList (displayFloat x)) = String.ofList (displayFloat x) := by
  apply unquoted_of_not_mem
  rw [String.toList_ofList]
  exact not_mem_displayFloat (by decide) (by decide) x

/-! ## Conditions -/

/-- A number has its place on no side of its own text. -/
theorem order_own_text {bits : BitVec 64} (h : ¬ IsNaN bits) (field : String)
    (comparison : Comparison) :
    Condition.order ⟨field, comparison, (float (.ofBits bits)).display⟩ (float (.ofBits bits)) =
      .ok (some .eq) := by
  obtain ⟨p, hp⟩ := Binary64.exists_place (ofBits_eq_nan_iff.not.mpr h)
  have hsame : compare p p = .eq := compare_eq_iff_eq.mpr rfl
  rw [Condition.order, display, readLiteral?_displayFloat]
  dsimp only
  rw [compareNumber, Binary64.compare?_eq hp hp, hsame]

/-- A floating number is equal to its own text and on no side of it. -/
theorem verdict_own_text {bits : BitVec 64} (h : ¬ IsNaN bits) {record : Record}
    {field comparison text : String} (hkeyword : ∀ c : Connective, field ≠ c.keyword)
    (hcomparison : comparison ∈ [">", "<", "=="])
    (hvalue : record.get? field = some (float (.ofBits bits)))
    (hwords : words text = [field, comparison, (float (.ofBits bits)).display]) :
    (Rule.ofText text).verdict record = .ok (decide (comparison = "==")) := by
  rw [Rule.verdict_of_words hwords hkeyword hcomparison (displayFloat_ne_keyword _),
    Condition.verdict, hvalue]
  simp only [List.mem_cons, List.not_mem_nil, or_false] at hcomparison
  rcases hcomparison with rfl | rfl | rfl
  · have hgreater : Comparison.ofWord ">" = .greater := by decide
    rw [hgreater]
    dsimp only
    rw [order_own_text h]
    rfl
  · have hless : Comparison.ofWord "<" = .less := by decide
    rw [hless]
    dsimp only
    rw [order_own_text h]
    rfl
  · have hequal : Comparison.ofWord "==" = .equal := by decide
    rw [hequal]
    dsimp only
    rw [display, unquoted_displayFloat, decide_eq_true rfl, decide_eq_true rfl]

/-- **A displayed number is that number and no other.**  The text of a floating number is
read as its encoding, bit by bit; it is no integer's; it is one word, and in a condition
the number is equal to it, and neither greater nor less.  Texts are the same for the same
integer, the same encoding, and any two encodings of not a number. -/
theorem display_faithful :
    (∀ bits : BitVec 64, ¬ IsNaN bits →
      (readLiteral? (float (.ofBits bits)).display).map Binary64.toBits = some bits ∧
      (∀ i : Int64, (float (.ofBits bits)).display ≠ (integer i).display) ∧
      IsWord (float (.ofBits bits)).display.toList ∧
      ∀ (record : Record) (field : String), (∀ c : Connective, field ≠ c.keyword) →
        record.get? field = some (float (.ofBits bits)) → ∀ text : String,
        (words text = [field, "==", (float (.ofBits bits)).display] →
          (Rule.ofText text).verdict record = .ok true) ∧
        (words text = [field, ">", (float (.ofBits bits)).display] →
          (Rule.ofText text).verdict record = .ok false) ∧
        (words text = [field, "<", (float (.ofBits bits)).display] →
          (Rule.ofText text).verdict record = .ok false)) ∧
    (∀ i j : Int64, (integer i).display = (integer j).display ↔ i = j) ∧
    (∀ bits other : BitVec 64, (float (.ofBits bits)).display = (float (.ofBits other)).display ↔
      bits = other ∨ (IsNaN bits ∧ IsNaN other)) ∧
    ∀ (i : Int64) (bits : BitVec 64), (integer i).display ≠ (float (.ofBits bits)).display := by
  have hmixed (i : Int64) (bits : BitVec 64) :
      (integer i).display ≠ (float (.ofBits bits)).display := by
    rw [display, display, Ne, String.ofList_inj]
    exact (displayFloat_ne_integerText _ _).symm
  refine ⟨?_, ?_, ?_, hmixed⟩
  · intro bits hbits
    refine ⟨?_, fun i => (hmixed i bits).symm, ?_, ?_⟩
    · rw [display, readLiteral?_displayFloat, Option.map_some, Binary64.toBits_ofBits hbits]
    · rw [display, String.toList_ofList]
      exact isWord_displayFloat _
    · intro record field hkeyword hvalue text
      exact ⟨verdict_own_text hbits hkeyword (by decide) hvalue,
        verdict_own_text hbits hkeyword (by decide) hvalue,
        verdict_own_text hbits hkeyword (by decide) hvalue⟩
  · intro i j
    rw [display, display, String.ofList_inj, integerText_injective.eq_iff, Int64.toInt_inj]
  · intro bits other
    rw [display, display, String.ofList_inj, displayFloat_injective.eq_iff,
      Binary64.ofBits_eq_iff]

/-- Zero is displayed with its sign. -/
theorem displayFloat_zero (negative : Bool) :
    displayFloat (.finite negative 0 (by decide)) =
      (if negative then "-0.0" else "0.0").toList := by
  have hshortest : shortest displayFormat.tie 0 = ⟨0, 0⟩ := rfl
  have hdigits : digitsOf 0 = [0] := by
    rw [digitsOf]
    rfl
  have hnumeral : displayFormat.numeral negative 0 = ⟨negative, 0, [0], none⟩ := by
    rw [NumberFormat.numeral, hshortest]
    dsimp only
    rw [hdigits]
    rfl
  rw [displayFloat, NumberFormat.finiteText, hnumeral, Numeral.text, naturalText]
  dsimp only
  rw [hdigits]
  cases negative
  all_goals rfl

/-- A negative zero is equal to `-0.0`, and not greater. -/
theorem display_negative_zero :
    (Rule.ofText "x == -0.0").verdict
        (Record.empty.insert "x" (float (.ofBits 0x8000000000000000))) = .ok true ∧
      (Rule.ofText "x > -0.0").verdict
        (Record.empty.insert "x" (float (.ofBits 0x8000000000000000))) = .ok false := by
  have hnumber : ¬ IsNaN 0x8000000000000000 := fun h => absurd h.1 (by decide +kernel)
  have hzero : Binary64.ofBits 0x8000000000000000 = .finite true 0 (by decide) := by
    decide +kernel
  have htext : (float (.ofBits 0x8000000000000000)).display = "-0.0" := by
    rw [hzero, display, displayFloat_zero, if_pos rfl, String.ofList_toList]
  have hvalue := Record.get?_insert_self .empty "x" (float (.ofBits 0x8000000000000000))
  obtain ⟨-, -, -, hverdict⟩ := display_faithful.1 0x8000000000000000 hnumber
  obtain ⟨hequal, -, -⟩ := hverdict _ "x" Rule.isWord_x.2 hvalue "x == -0.0"
  obtain ⟨-, hgreater, -⟩ := hverdict _ "x" Rule.isWord_x.2 hvalue "x > -0.0"
  rw [htext] at hequal hgreater
  exact ⟨hequal (by decide +kernel), hgreater (by decide +kernel)⟩

end Value

end RuleEngine
