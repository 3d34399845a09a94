import RuleEngine.Number.Numeral

/-!
# Number literals

The numbers that a condition may compare with.  A literal is an optional sign
before one of the words `inf`, `infinity` and `nan`, in any case of letters, or
before decimal digits with an optional point and an optional exponent; digits
are needed on one side of the point at least.  Between two digits an underscore
may stand, to group them, and means nothing.

* `readLiteral?` — the number of a literal, `none` for any other text;
* `underscoresGroup`, `readPlainLiteral?` — its two halves: where underscores
  may stand, and the forms without them.
-/

namespace RuleEngine

/-- A character is an ASCII digit. -/
def isDigitChar (c : Char) : Bool := (digitOfChar? c).isSome

/-- A text starts with a digit. -/
def startsWithDigit : List Char → Bool
  | [] => false
  | c :: _ => isDigitChar c

/-- Every underscore has a digit on either side.  `digitBefore` tells whether
the character in front of the text is a digit. -/
def underscoresGroup (digitBefore : Bool) : List Char → Bool
  | [] => true
  | c :: rest =>
      if c = '_' then digitBefore && startsWithDigit rest && underscoresGroup false rest
      else underscoresGroup (isDigitChar c) rest

/-- The numeral that a whole text is, digits being needed on one side of the
point at least. -/
def readNumeral? (negative : Bool) (text : List Char) : Option Numeral :=
  let (whole, rest) := spanDigits text
  let (fraction, rest) :=
    match rest with
    | '.' :: rest => spanDigits rest
    | rest => ([], rest)
  if whole.isEmpty && fraction.isEmpty then none
  else
    match scanExponent? rest with
    | some (exponent, []) => some ⟨negative, valueOf whole, fraction, exponent⟩
    | _ => none

/-- The number of a literal without underscores. -/
def readPlainLiteral? (text : List Char) : Option Binary64 :=
  let (negative, body) := splitSign text
  let word := body.map Char.toLower
  if word = "nan".toList then some .nan
  else if word = "inf".toList ∨ word = "infinity".toList then some (.infinity negative)
  else (readNumeral? negative body).map Numeral.toBinary64

/-- The number of a literal. -/
def readLiteral? (literal : String) : Option Binary64 :=
  let text := literal.toList
  if underscoresGroup false text then readPlainLiteral? (text.filter (· ≠ '_')) else none

end RuleEngine
