import RuleEngine.Number.Numeral

/-!
# Field values

A field of a record holds an integer of sixty-four bits, a binary64 number or a
text.  A value is used in two ways only: it is ordered against a number, or its
display text is compared with another text.

* `Value.compareNumber` — the order of a value against a number; text has none;
* `Value.display` — the display text.  Integers are decimal, texts are
  themselves, and floating numbers have the fewest digits that read back to
  them, always with a point or an exponent.
-/

namespace RuleEngine

/-- A field value. -/
inductive Value where
  | integer (n : Int64)
  | float (x : Binary64)
  | text (s : String)
  deriving DecidableEq

namespace Value

/-- The value as a floating number: an integer goes to the nearest one, text
has none. -/
def toBinary64 : Value → Option Binary64
  | integer n => some (.ofInt n.toInt)
  | float x => some x
  | text _ => none

/-- Integral numbers below this bound are compared as integers. -/
def exactBound : Binary64 := .ofInt (tenPow 38)

/-- The order of a value against a number; `none` for text, and when either
side is not a number.  An integer is compared exactly with an integral number
below the bound.  Any other number is fractional, huge or infinite, so that
rounding the integer first cannot change the order. -/
def compareNumber : Value → Binary64 → Option Ordering
  | integer n, x =>
      if x.isIntegral ∧ x.abs.compare? exactBound = some .lt then
        some (compare n.toInt x.toInt128)
      else (Binary64.ofInt n.toInt).compare? x
  | float y, x => y.compare? x
  | text _, _ => none

/-- Floating numbers are displayed positionally from `0.0001` to below
`10 ^ 16`, otherwise with a signed exponent of two digits or more.  Of two
equally near decimals the larger magnitude is taken. -/
def displayFormat : NumberFormat where
  plainFrom := -4
  plainBelow := 16
  exponentWidth := 2
  tie := .up

/-- The display text of a floating number. -/
def displayFloat : Binary64 → List Char
  | .nan => "nan".toList
  | .infinity negative => if negative then "-inf".toList else "inf".toList
  | .finite negative rank _ => displayFormat.finiteText negative rank

/-- The display text. -/
def display : Value → String
  | integer n => String.ofList (integerText n.toInt)
  | float x => String.ofList (displayFloat x)
  | text s => s

/-- Two values are of one kind and equal.  Floating numbers are compared as
numbers: the zeros are equal, and not a number equals nothing. -/
def sameAs : Value → Value → Bool
  | integer m, integer n => m = n
  | float x, float y => x.compare? y = some .eq
  | text s, text t => s = t
  | _, _ => false

end Value

end RuleEngine
