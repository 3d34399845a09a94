import RuleEngine.Proofs.NumeralText

/-!
# The parts of written numbers

Numbers are written from a few parts: a sign, runs of digits, an exponent.  The readers
take such parts off the front of a text.  Here each part has a form of its own, said
without a reader, and a reader takes off a text of this form, with the value that goes
with it, and leaves the text behind it.  What a run of digits is differs from one kind of
number to the other, so the form of an exponent is told over any form of runs.

* `PlainDigits`, `SignForm`, `ExponentForm` — the forms;
* `spanDigits_eq_iff` — digits are taken off up to what is no digit;
* `exists_sign_of_splitSign`, `splitSign_append` — signs;
* `exists_exponent_of_scanExponent?`, `scanExponent?_of_form` — exponents;
* `Numeral.signForm_text`, `Numeral.exponentForm_text` — the parts of a written numeral.
-/

namespace RuleEngine

/-- A run of digits, one at least, with nothing between them. -/
def PlainDigits (text : List Char) (digits : List Digit) : Prop :=
  digits ≠ [] ∧ text = digitText digits

/-- One sign or none; `true` is minus. -/
inductive SignForm : List Char → Bool → Prop
  | none : SignForm [] false
  | plus : SignForm ['+'] false
  | minus : SignForm ['-'] true

/-- No exponent, or a mark with a sign and a run of digits behind it. -/
inductive ExponentForm (Run : List Char → List Digit → Prop) : List Char → Option Int → Prop
  | none : ExponentForm Run [] none
  | some {mark : Char} {sign text : List Char} {negative : Bool} {digits : List Digit}
      (hmark : mark = 'e' ∨ mark = 'E') (hsign : SignForm sign negative)
      (hrun : Run text digits) :
      ExponentForm Run (mark :: (sign ++ text)) (some (signed negative (valueOf digits)))

/-! ## Digits -/

/-- The character of a digit is a digit character. -/
theorem isDigitChar_toChar (d : Digit) : isDigitChar d.toChar = true := by
  simp [isDigitChar, digitOfChar?_toChar]

/-- A digit character is the character of its digit. -/
theorem toChar_of_digitOfChar? {c : Char} {d : Digit} (h : digitOfChar? c = some d) :
    d.toChar = c := by
  unfold digitOfChar? at h
  split at h
  · rename_i hrange
    have hvalue : d.val = c.toNat - '0'.toNat := by
      rw [← Option.some.inj h]
    have hcode : '0'.toNat + d.val = c.toNat := by omega
    rw [Digit.toChar, hcode, Char.ofNat_toNat]
  · cases h

/-- Every digit character is that of some digit. -/
theorem eq_toChar_of_isDigitChar {c : Char} (h : isDigitChar c = true) :
    ∃ d : Digit, c = d.toChar := by
  obtain ⟨d, hd⟩ := Option.isSome_iff_exists.mp h
  exact ⟨d, (toChar_of_digitOfChar? hd).symm⟩

/-- **Digits are taken off up to what is no digit,** and no other way of cutting a text
gives this. -/
theorem spanDigits_eq_iff {text after : List Char} {digits : List Digit} :
    spanDigits text = (digits, after) ↔ text = digitText digits ++ after ∧ EndsDigits after := by
  constructor
  · intro h
    induction text generalizing digits after with
    | nil =>
        obtain ⟨rfl, rfl⟩ := Prod.mk.inj h
        exact ⟨rfl, endsDigits_nil⟩
    | cons c rest ih =>
        rw [spanDigits] at h
        cases hc : digitOfChar? c with
        | none =>
            rw [hc] at h
            obtain ⟨rfl, rfl⟩ := Prod.mk.inj h
            exact ⟨rfl, endsDigits_cons hc rest⟩
        | some d =>
            rw [hc] at h
            obtain ⟨rfl, rfl⟩ := Prod.mk.inj h
            obtain ⟨htext, hend⟩ := ih rfl
            refine ⟨?_, hend⟩
            rw [digitText, List.map_cons, List.cons_append, toChar_of_digitOfChar? hc]
            exact congrArg _ htext
  · intro h
    obtain ⟨rfl, hend⟩ := h
    exact spanDigits_append digits hend

/-! ## Signs -/

/-- A sign, or none, is taken off the front of a text. -/
theorem exists_sign_of_splitSign {text body : List Char} {negative : Bool}
    (h : splitSign text = (negative, body)) :
    ∃ sign, text = sign ++ body ∧ SignForm sign negative := by
  unfold splitSign at h
  split at h
  · obtain ⟨rfl, rfl⟩ := Prod.mk.inj h
    exact ⟨['-'], rfl, .minus⟩
  · obtain ⟨rfl, rfl⟩ := Prod.mk.inj h
    exact ⟨['+'], rfl, .plus⟩
  · obtain ⟨rfl, rfl⟩ := Prod.mk.inj h
    exact ⟨[], rfl, .none⟩

/-- A sign is taken off a text that has no second one behind it. -/
theorem splitSign_append {sign body : List Char} {negative : Bool} (h : SignForm sign negative)
    (hbody : ∀ c ∈ body.head?, c ≠ '-' ∧ c ≠ '+') :
    splitSign (sign ++ body) = (negative, body) := by
  cases h with
  | plus => rfl
  | minus => rfl
  | none =>
      refine splitSign.eq_3 body ?_ ?_
      · intro rest hrest
        exact (hbody '-' (by rw [hrest]; rfl)).1 rfl
      · intro rest hrest
        exact (hbody '+' (by rw [hrest]; rfl)).2 rfl

/-- A digit is no sign. -/
theorem toChar_ne_sign (d : Digit) : d.toChar ≠ '-' ∧ d.toChar ≠ '+' :=
  ⟨ne_toChar (by decide) d, ne_toChar (by decide) d⟩

/-! ## Exponents -/

/-- An exponent, or none, is taken off the front of a text. -/
theorem exists_exponent_of_scanExponent? {text after : List Char} {exponent : Option Int}
    (h : scanExponent? text = some (exponent, after)) :
    ∃ part, text = part ++ after ∧ ExponentForm PlainDigits part exponent := by
  unfold scanExponent? at h
  split at h
  · obtain ⟨rfl, rfl⟩ := Prod.mk.inj (Option.some.inj h)
    exact ⟨[], rfl, .none⟩
  · rename_i c rest
    by_cases hmark : c = 'e' ∨ c = 'E'
    · cases hsplit : splitSign rest with
      | mk negative body =>
          cases hspan : spanDigits body with
          | mk digits tail =>
              obtain ⟨sign, hrest, hsign⟩ := exists_sign_of_splitSign hsplit
              obtain ⟨hbody, -⟩ := spanDigits_eq_iff.mp hspan
              rw [if_pos hmark, hsplit] at h
              simp only [hspan] at h
              split at h
              · cases h
              · rename_i hsome
                obtain ⟨rfl, rfl⟩ := Prod.mk.inj (Option.some.inj h)
                have hrun : PlainDigits (digitText digits) digits := ⟨by simpa using hsome, rfl⟩
                refine ⟨_, ?_, ExponentForm.some hmark hsign hrun⟩
                rw [List.cons_append, List.append_assoc, ← hbody, ← hrest]
    · rw [if_neg hmark] at h
      obtain ⟨rfl, rfl⟩ := Prod.mk.inj (Option.some.inj h)
      exact ⟨[], rfl, .none⟩

/-- **An exponent is read as it was written,** up to what does not belong to it. -/
theorem scanExponent?_of_form {part rest : List Char} {exponent : Option Int}
    (h : ExponentForm PlainDigits part exponent) (hrest : EndsNumeral rest) :
    scanExponent? (part ++ rest) = some (exponent, rest) := by
  cases h with
  | none =>
      cases rest with
      | nil => rfl
      | cons c rest =>
          have hmark : ¬ (c = 'e' ∨ c = 'E') := not_or.mpr (hrest.mark c rfl)
          rw [List.nil_append, scanExponent?, if_neg hmark]
  | @some mark sign text negative digits hmark hsign hrun =>
      obtain ⟨hne, rfl⟩ := hrun
      have hbody : ∀ c ∈ (digitText digits ++ rest).head?, c ≠ '-' ∧ c ≠ '+' := by
        obtain ⟨d, digits, rfl⟩ := List.exists_cons_of_ne_nil hne
        intro c hc
        rw [← Option.some.inj hc]
        exact toChar_ne_sign d
      have hsome : digits.isEmpty = false := by simpa using hne
      rw [List.cons_append, List.append_assoc, scanExponent?, if_pos hmark,
        splitSign_append hsign hbody]
      dsimp only
      rw [spanDigits_append digits hrest.digits]
      simp [hsome]

/-- What an exponent starts with goes on with no run of digits, and with no point. -/
theorem ExponentForm.head {Run : List Char → List Digit → Prop} {part : List Char}
    {exponent : Option Int} (h : ExponentForm Run part exponent) :
    ∀ c ∈ part.head?, c = 'e' ∨ c = 'E' := by
  intro c hc
  cases h with
  | none => cases hc
  | some hmark _ _ => exact Option.some.inj hc ▸ hmark

/-- An exponent does not start with a digit. -/
theorem ExponentForm.endsDigits {Run : List Char → List Digit → Prop} {part : List Char}
    {exponent : Option Int} (h : ExponentForm Run part exponent) : EndsDigits part := by
  intro c hc
  rcases h.head c hc with rfl | rfl <;> decide

/-! ## Numerals as they are written -/

namespace Numeral

theorem signForm_text (negative : Bool) :
    SignForm (if negative then ['-'] else []) negative := by
  cases negative with
  | true => exact .minus
  | false => exact .none

/-- The sign of a numeral and the rest of it are told apart. -/
theorem splitSign_text (width : Nat) (n : Numeral) :
    splitSign (n.text width) = (n.negative, n.body width) := by
  obtain ⟨d, rest, hbody⟩ := n.exists_body width
  have hdigit : ∀ c ∈ (n.body width).head?, c ≠ '-' ∧ c ≠ '+' := by
    intro c hc
    rw [hbody] at hc
    exact Option.some.inj hc ▸ toChar_ne_sign d
  rw [text_eq]
  exact splitSign_append (signForm_text n.negative) hdigit

/-- The exponent of a numeral has the form of one, padded or not. -/
theorem exponentForm_text (width : Nat) (exponent : Option Int) :
    ExponentForm PlainDigits (exponentText? width exponent) exponent := by
  cases exponent with
  | none => exact .none
  | some e =>
      let digits := List.replicate (width - (naturalText e.natAbs).length) 0 ++ digitsOf e.natAbs
      have hrun : PlainDigits (List.replicate (width - (naturalText e.natAbs).length) '0' ++
          naturalText e.natAbs) digits := by
        refine ⟨List.append_ne_nil_of_right_ne_nil _ (digitsOf_ne_nil e.natAbs), ?_⟩
        rw [digitText, List.map_append, List.map_replicate]
        rfl
      have hsign : SignForm [if e < 0 then '-' else '+'] (decide (e < 0)) := by
        by_cases hneg : e < 0
        · simpa [hneg] using SignForm.minus
        · simpa [hneg] using SignForm.plus
      have hvalue : signed (decide (e < 0)) (valueOf digits) = e := by
        rw [valueOf_replicate_zero_append, valueOf_digitsOf, signed_natAbs]
      have hform := ExponentForm.some (.inl rfl) hsign hrun
      rwa [hvalue] at hform

end Numeral

end RuleEngine
