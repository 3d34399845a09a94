import RuleEngine.Number.Decimal
import RuleEngine.Number.Digits

/-!
# Numerals

A numeral is the written form of a number: a sign, a whole part, a fraction and
an exponent.  The same form serves numbers in rule text, numbers in JSON text,
and the numbers this library writes.

* `Numeral.toBinary64` — the number nearest to what a numeral says;
* `scanExponent?` — the exponent that a text starts with, if it starts with one;
* `NumberFormat` — the decisions of a way to write floating numbers;
* `NumberFormat.numeral` — the shortest numeral of a finite number that the
  format admits, positional or with an exponent.
-/

namespace RuleEngine

/-- A number as it is written.  The fraction keeps its digits, for zeros at its
end count as written; no digits stand for no fraction. -/
structure Numeral where
  negative : Bool
  whole : Nat
  fraction : List Digit
  exponent : Option Int
  deriving DecidableEq

namespace Numeral

/-- The magnitude that a numeral says, exactly. -/
def magnitude (n : Numeral) : Decimal :=
  ⟨valueFrom n.whole n.fraction, n.exponent.getD 0 - n.fraction.length⟩

/-- The number nearest to what a numeral says. -/
def toBinary64 (n : Numeral) : Binary64 := n.magnitude.toBinary64 n.negative

/-- The exponent as text: the mark, a sign, and at least so many digits. -/
def exponentText (width : Nat) (e : Int) : List Char :=
  let digits := naturalText e.natAbs
  'e' :: (if e < 0 then '-' else '+') ::
    (List.replicate (width - digits.length) '0' ++ digits)

/-- A numeral as text, the exponent with at least `width` digits. -/
def text (width : Nat) (n : Numeral) : List Char :=
  (if n.negative then ['-'] else []) ++ naturalText n.whole ++
    (if n.fraction.isEmpty then [] else '.' :: digitText n.fraction) ++
    (match n.exponent with
      | none => []
      | some e => exponentText width e)

end Numeral

/-- The sign that a text starts with, and the text after it: `true` is minus.
A text without a sign counts as positive. -/
def splitSign : List Char → Bool × List Char
  | '-' :: rest => (true, rest)
  | '+' :: rest => (false, rest)
  | text => (false, text)

/-- The exponent that a text starts with, and the text after it.  No mark means
no exponent; a mark without digits behind it is an error, `none`. -/
def scanExponent? : List Char → Option (Option Int × List Char)
  | [] => some (none, [])
  | c :: rest =>
      if c = 'e' ∨ c = 'E' then
        let (negative, body) := splitSign rest
        let (digits, after) := spanDigits body
        if digits.isEmpty then none
        else some (some (signed negative (valueOf digits)), after)
      else some (none, c :: rest)

/-- The decisions of a way to write floating numbers.  The exponent of a number
is that of its leading digit. -/
structure NumberFormat where
  /-- the least exponent that is written positionally -/
  plainFrom : Int
  /-- the least exponent above these that is not -/
  plainBelow : Int
  /-- the least count of digits in a written exponent -/
  exponentWidth : Nat
  /-- which of two equally near decimals is written -/
  tie : Tie

namespace NumberFormat

/-- Digits with the decimal point set behind the place `lead` of the leading
digit.  A number that is whole keeps a zero as its fraction. -/
def positional (negative : Bool) (digits : List Digit) (lead : Int) : Numeral :=
  if lead < 0 then
    ⟨negative, 0, List.replicate (lead.natAbs - 1) 0 ++ digits, none⟩
  else
    let places := lead.toNat + 1
    let whole := valueOf (digits.take places) * tenPow (places - digits.length)
    let fraction := digits.drop places
    ⟨negative, whole, if fraction.isEmpty then [0] else fraction, none⟩

/-- Digits with the point behind the first of them, and an exponent. -/
def scientific (negative : Bool) (digits : List Digit) (lead : Int) : Numeral :=
  ⟨negative, valueOf (digits.take 1), digits.drop 1, some lead⟩

/-- The numeral of a finite number: the fewest digits that read back to it. -/
def numeral (format : NumberFormat) (negative : Bool) (rank : Nat) : Numeral :=
  let decimal := shortest format.tie rank
  let digits := digitsOf decimal.digits
  let lead := decimal.exponent + digits.length - 1
  if format.plainFrom ≤ lead ∧ lead < format.plainBelow then
    positional negative digits lead
  else scientific negative digits lead

/-- A finite number as text. -/
def finiteText (format : NumberFormat) (negative : Bool) (rank : Nat) : List Char :=
  (format.numeral negative rank).text format.exponentWidth

end NumberFormat

end RuleEngine
