import RuleEngine.Json.Scanner
import RuleEngine.Proofs.Words

/-!
# Numerals as text

A numeral is written as its digits with a point, if it has a fraction, and a mark, if it
has an exponent.  So it is one word, and few characters are in it.  Readers of numbers take
digits for as long as there are any; where a text stops to go on with a number is what they
need to know of it.

* `spanDigits_append` — digits are read up to what is no digit;
* `EndsDigits`, `EndsNumeral` — a text that does not go on with a number;
* `Numeral.text_eq`, `Numeral.body` — the parts of a numeral as they are written;
* `Numeral.isWord_text`, `Numeral.mem_text` — a numeral is one word, of few characters;
* `readLiteral?_of_not_mem` — literals without underscores.
-/

namespace RuleEngine

/-! ## Digits -/

/-- A character that writes no digit is not the character of one. -/
theorem ne_toChar {c : Char} (h : digitOfChar? c = none) (d : Digit) : d.toChar ≠ c := by
  rintro rfl
  rw [digitOfChar?_toChar] at h
  cases h

/-- Digits are no white space. -/
theorem isBlank_toChar (d : Digit) : isBlank d.toChar = false := by
  revert d
  decide

/-- A text does not go on with a digit. -/
def EndsDigits (rest : List Char) : Prop := ∀ c ∈ rest.head?, digitOfChar? c = none

theorem endsDigits_nil : EndsDigits [] := fun _ hc => by cases hc

/-- A text that goes on with something else than a digit ends digits. -/
theorem endsDigits_cons {c : Char} (h : digitOfChar? c = none) (rest : List Char) :
    EndsDigits (c :: rest) := by
  intro d hd
  rwa [← Option.some.inj hd]

/-- **Digits are read to their end.** -/
theorem spanDigits_append (digits : List Digit) {rest : List Char} (h : EndsDigits rest) :
    spanDigits (digitText digits ++ rest) = (digits, rest) := by
  induction digits with
  | nil =>
      cases rest with
      | nil => rfl
      | cons c rest =>
          have hc : digitOfChar? c = none := h c rfl
          rw [digitText, List.map_nil, List.nil_append, spanDigits, hc]
  | cons d digits ih =>
      rw [digitText] at ih
      rw [digitText, List.map_cons, List.cons_append, spanDigits, digitOfChar?_toChar, ih]

/-- Digits are told from their text. -/
theorem digitText_injective : Function.Injective digitText := by
  intro digits digits' h
  have hspan := congrArg (fun text => spanDigits (text ++ [])) h
  rw [spanDigits_append _ endsDigits_nil, spanDigits_append _ endsDigits_nil] at hspan
  exact congrArg Prod.fst hspan

/-- A natural number is told from its text. -/
theorem naturalText_injective : Function.Injective naturalText := by
  intro m n h
  rw [← valueOf_digitsOf m, ← valueOf_digitsOf n, digitText_injective h]

/-- A natural number starts with a digit. -/
theorem exists_naturalText (n : Nat) : ∃ (d : Digit) (rest : List Char),
    naturalText n = d.toChar :: rest := by
  obtain ⟨d, digits, hdigits⟩ := List.exists_cons_of_ne_nil (digitsOf_ne_nil n)
  exact ⟨d, digitText digits, by rw [naturalText, hdigits, digitText, List.map_cons]; rfl⟩

/-- Only zero starts with the digit zero. -/
theorem digitsOf_cons_zero {n : Nat} {digits : List Digit} (h : digitsOf n = 0 :: digits) :
    n = 0 ∧ digits = [] := by
  fun_induction digitsOf n generalizing digits with
  | case1 n hlt =>
      obtain ⟨hzero, rfl⟩ := List.cons.inj h
      exact ⟨congrArg Fin.val hzero, rfl⟩
  | case2 n hlt ih =>
      obtain ⟨d, front, hfront⟩ := List.exists_cons_of_ne_nil (digitsOf_ne_nil (n / 10))
      rw [hfront, List.cons_append, List.cons.injEq] at h
      rw [h.1] at hfront
      have htenth : n / 10 = 0 := (ih hfront).1
      omega

/-- What may follow a numeral in a text: nothing that could belong to it. -/
structure EndsNumeral (rest : List Char) : Prop where
  digits : EndsDigits rest
  point : ∀ c ∈ rest.head?, c ≠ '.'
  mark : ∀ c ∈ rest.head?, c ≠ 'e' ∧ c ≠ 'E'

/-- A numeral may stand at the end of a text. -/
theorem endsNumeral_nil : EndsNumeral [] := ⟨endsDigits_nil, by simp, by simp⟩

/-- An integer is its magnitude with its sign. -/
theorem signed_natAbs (i : Int) : signed (decide (i < 0)) i.natAbs = i := by
  by_cases hneg : i < 0
  · rw [decide_eq_true hneg, signed_true]
    omega
  · rw [decide_eq_false hneg, signed_false]
    omega

/-! ## Parts of a numeral -/

namespace Numeral

/-- The fraction of a numeral as text. -/
def fractionText (fraction : List Digit) : List Char :=
  if fraction.isEmpty then [] else '.' :: digitText fraction

theorem fractionText_nil : fractionText [] = [] := rfl

theorem fractionText_cons (d : Digit) (digits : List Digit) :
    fractionText (d :: digits) = '.' :: digitText (d :: digits) := rfl

/-- The mark and the exponent of a numeral as text, if it has one. -/
def exponentText? (width : Nat) : Option Int → List Char
  | none => []
  | some e => exponentText width e

/-- A numeral without its sign as text. -/
def body (width : Nat) (n : Numeral) : List Char :=
  naturalText n.whole ++ (fractionText n.fraction ++ exponentText? width n.exponent)

/-- A numeral is written as its sign and its body. -/
theorem text_eq (width : Nat) (n : Numeral) :
    n.text width = (if n.negative then ['-'] else []) ++ n.body width := by
  rw [text, body, List.append_assoc, List.append_assoc, fractionText]
  cases n.exponent <;> rfl

variable (width : Nat) (n : Numeral)

/-- Without its sign a numeral starts with a digit. -/
theorem exists_body : ∃ (d : Digit) (rest : List Char), n.body width = d.toChar :: rest := by
  obtain ⟨d, rest, htext⟩ := exists_naturalText n.whole
  exact ⟨d, rest ++ (fractionText n.fraction ++ exponentText? width n.exponent), by
    rw [body, htext, List.cons_append]⟩

/-- What a numeral is written with. -/
theorem mem_text {c : Char} (h : c ∈ n.text width) :
    c ∈ ['-', '+', '.', 'e'] ∨ ∃ d : Digit, c = d.toChar := by
  have hdigit {digits : List Digit} (hc : c ∈ digitText digits) : ∃ d : Digit, c = d.toChar := by
    obtain ⟨d, -, hd⟩ := List.mem_map.mp hc
    exact ⟨d, hd.symm⟩
  rw [text_eq, body, List.mem_append, List.mem_append, List.mem_append] at h
  rcases h with hsign | hwhole | hfraction | hexponent
  · split at hsign
    · exact .inl (by rw [List.mem_singleton.mp hsign]; decide)
    · cases hsign
  · exact .inr (hdigit hwhole)
  · unfold fractionText at hfraction
    split at hfraction
    · cases hfraction
    · rcases List.mem_cons.mp hfraction with rfl | hc
      · exact .inl (by decide)
      · exact .inr (hdigit hc)
  · cases hn : n.exponent with
    | none =>
        rw [hn] at hexponent
        cases hexponent
    | some e =>
        rw [hn, exponentText?, exponentText, List.mem_cons, List.mem_cons, List.mem_append,
          List.mem_replicate] at hexponent
        rcases hexponent with rfl | hsign | ⟨-, rfl⟩ | hc
        · exact .inl (by decide)
        · left
          split at hsign
          all_goals
            rw [hsign]
            decide
        · exact .inr ⟨0, rfl⟩
        · exact .inr (hdigit hc)

/-- A character that is neither a digit nor one of these marks is not in a written numeral. -/
theorem not_mem_text {c : Char} (hsign : c ∉ ['-', '+', '.', 'e'])
    (hdigit : digitOfChar? c = none) : c ∉ n.text width := by
  intro hc
  rcases mem_text width n hc with hmem | ⟨d, hd⟩
  · exact hsign hmem
  · exact ne_toChar hdigit d hd.symm

/-- A numeral is one word. -/
theorem isWord_text : IsWord (n.text width) := by
  constructor
  · obtain ⟨d, rest, hbody⟩ := exists_body width n
    rw [text_eq, hbody]
    exact List.append_ne_nil_of_right_ne_nil _ (List.cons_ne_nil _ _)
  · intro c hc
    rcases mem_text width n hc with hmem | ⟨d, rfl⟩
    · simp only [List.mem_cons, List.not_mem_nil, or_false] at hmem
      rcases hmem with rfl | rfl | rfl | rfl <;> rfl
    · exact isBlank_toChar d

end Numeral

/-! ## Literals -/

/-- Where there are no underscores, none stands in a wrong place. -/
theorem underscoresGroup_of_not_mem {text : List Char} (h : '_' ∉ text) (digitBefore : Bool) :
    underscoresGroup digitBefore text = true := by
  induction text generalizing digitBefore with
  | nil => rfl
  | cons c rest ih =>
      rw [List.mem_cons, not_or] at h
      rw [underscoresGroup, if_neg (Ne.symm h.1)]
      exact ih h.2 (isDigitChar c)

/-- A literal without underscores is read as it stands. -/
theorem readLiteral?_of_not_mem {text : List Char} (h : '_' ∉ text) :
    readLiteral? (String.ofList text) = readPlainLiteral? text := by
  have hkeep : text.filter (fun c => decide (c ≠ '_')) = text := by
    rw [List.filter_eq_self]
    intro c hc
    rw [decide_eq_true_eq]
    rintro rfl
    exact h hc
  rw [readLiteral?, String.toList_ofList, if_pos (underscoresGroup_of_not_mem h false), hkeep]

end RuleEngine
