import RuleEngine.Json.Spelling
import RuleEngine.Proofs.JsonTexts

/-!
# JSON values read back from their text

A value is spelled as its tokens one behind another, with nothing between them.  The
spelling of each token is a piece of JSON text: a character of a string is spelled in one of
the ways that a string may have, and a written numeral is a number.  So what was spelled is
a text of the value, and the value is read back from it, whatever value it is.

* `StringForm.spellChar_append`, `denotes_map_toNat` — strings as they are spelled;
* `Token.lexeme_spelling` — the spelling of a token is a piece of it;
* `Json.spelled_spelling` — the spelling of a value is a text of it;
* `Json.ofText?_spelling` — the value is read back from it.
-/

namespace RuleEngine

/-! ## Strings -/

/-- A letter behind a backslash stands for the character that it was put for. -/
theorem mem_escapes_of_jsonLetter? {c letter : Char} (h : jsonLetter? c = some letter) :
    (letter, c) ∈ escapes := by
  revert h
  fun_cases jsonLetter? c with
  | case1 | case2 | case3 | case4 | case5 | case6 | case7 =>
      rintro ⟨⟩
      subst_vars
      decide
  | case8 => nofun

/-- What has no letter is neither a quote nor a backslash. -/
theorem ne_of_jsonLetter?_eq_none {c : Char} (h : jsonLetter? c = none) : c ≠ '"' ∧ c ≠ '\\' := by
  constructor
  · rintro rfl
    cases h
  · rintro rfl
    cases h

theorem hexDigit_hexChar (n : Nat) : HexDigit (hexChar n) (n % 16) :=
  hexValue?_eq_some_iff.mp (hexValue?_hexChar n)

/-- **A character is spelled in one of the forms that it may have.** -/
theorem StringForm.spellChar_append (c : Char) {body : List Char} {codes : List Nat}
    (h : StringForm body codes) : StringForm (spellChar c ++ body) (c.toNat :: codes) := by
  unfold spellChar
  split
  · rename_i letter hletter
    exact .escape (mem_escapes_of_jsonLetter? hletter) h
  · rename_i hletter
    obtain ⟨hquote, hslash⟩ := ne_of_jsonLetter?_eq_none hletter
    by_cases hcontrol : c.toNat < 0x20
    · have hzero : HexDigit '0' 0 := by decide
      have hform := StringForm.code hzero hzero (hexDigit_hexChar (c.toNat / 16))
        (hexDigit_hexChar c.toNat) h
      have hcode : ((0 * 16 + 0) * 16 + c.toNat / 16 % 16) * 16 + c.toNat % 16 = c.toNat := by
        omega
      rw [hcode] at hform
      rw [if_pos hcontrol]
      exact hform
    · rw [if_neg hcontrol]
      exact .plain (Nat.le_of_not_lt hcontrol) hquote hslash h

/-- The spelling of a text has the form of a string, with the codes of its characters. -/
theorem stringForm_spelled (text : List Char) :
    StringForm (text.flatMap spellChar) (text.map Char.toNat) := by
  induction text with
  | nil => exact .nil
  | cons c text ih => exact ih.spellChar_append c

/-- The codes of a text denote this text. -/
theorem denotes_map_toNat (text : List Char) : Denotes (text.map Char.toNat) text := by
  induction text with
  | nil => exact .nil
  | cons c text ih => exact .char c ih

/-- Half of a surrogate pair denotes no text. -/
theorem not_denotes_half (text : List Char) : ¬ Denotes [0xD800] text := by
  intro h
  have hread := textOfUnits?_of_denotes h
  cases hread

/-! ## Tokens -/

/-- **The spelling of a token is a piece of text that is this token.** -/
theorem Token.lexeme_spelling (token : Token) : Lexeme token token.spelling := by
  cases token with
  | scalar value =>
      cases value with
      | null => exact .null
      | bool b =>
          cases b with
          | true => exact .true
          | false => exact .false
      | number n => exact .number (n.numberForm_text 1)
      | string content =>
          cases content with
          | some s => exact .text (stringForm_spelled s.toList) (denotes_map_toNat s.toList)
          | none =>
              have hd : HexDigit 'd' 13 := by decide
              have h8 : HexDigit '8' 8 := by decide
              have hzero : HexDigit '0' 0 := by decide
              have hbody : StringForm "\\ud800".toList [0xD800] :=
                .code hd h8 hzero hzero .nil
              exact .noText hbody not_denotes_half
  | openArray | closeArray | openObject | closeObject | comma | colon => constructor

/-- Tokens that are spelled one behind another are the pieces of a text. -/
theorem spelled_flatMap_spelling (tokens : List Token) :
    Spelled tokens (tokens.flatMap Token.spelling) := by
  induction tokens with
  | nil => exact .nil (by simp)
  | cons token tokens ih =>
      have hgap : ∀ c ∈ ([] : List Char), isJsonBlank c = true := nofun
      exact Spelled.cons hgap token.lexeme_spelling ih

namespace Json

/-- The spelling of a value is a text of it. -/
theorem spelled_spelling (json : Json) : Spelled json.tokens json.spelling.toList := by
  rw [spelling, String.toList_ofList]
  exact spelled_flatMap_spelling json.tokens

/-- **Every value is read back from its spelling.** -/
theorem ofText?_spelling (json : Json) : ofText? json.spelling = some json :=
  ofText?_eq_some_iff.mpr json.spelled_spelling

end Json

end RuleEngine
