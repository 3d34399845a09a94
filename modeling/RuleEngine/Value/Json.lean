import RuleEngine.Json.Reader
import RuleEngine.Json.Spelling
import RuleEngine.Number.Scaled
import RuleEngine.Value

/-!
# Field values in JSON

A field value is a JSON number or string.  A number written without fraction
and exponent that fits sixty-four signed bits is an integer, except for `-0`;
any other number is floating, read in scaled reading.  Floating values are
written with a fraction or an exponent, always, and not a number and the
infinities as null, which is no field value.

* `Value.toJson`, `Value.ofJson?` — to JSON and back.
-/

namespace RuleEngine

/-- The integer that a numeral writes.  One with a fraction or an exponent
writes none, and neither does minus zero. -/
def Numeral.integer? (n : Numeral) : Option Int :=
  if n.fraction.isEmpty ∧ n.exponent.isNone ∧ ¬ (n.negative ∧ n.whole = 0) then
    some (signed n.negative n.whole)
  else none

/-- An integer in sixty-four bits, if it fits them. -/
def int64? (n : Int) : Option Int64 :=
  if Int64.minValue.toInt ≤ n ∧ n ≤ Int64.maxValue.toInt then some (Int64.ofInt n) else none

namespace Value

/-- Floating numbers are written positionally from `0.00001` to below
`10 ^ 16`, otherwise with a signed exponent.  Of two equally near decimals the
one with the even last digit is taken. -/
def jsonFormat : NumberFormat where
  plainFrom := -5
  plainBelow := 16
  exponentWidth := 1
  tie := .even

/-- An integer as a numeral. -/
def integerNumeral (n : Int) : Numeral := ⟨n < 0, n.natAbs, [], none⟩

/-- The JSON of a value. -/
def toJson : Value → Json
  | integer n => .scalar (.number (integerNumeral n.toInt))
  | float (.finite negative rank _) =>
      .scalar (.number (jsonFormat.numeral negative rank))
  | float _ => .null
  | text s => .text s

/-- The value of a JSON number, `none` when it is too large. -/
def ofNumeral? (n : Numeral) : Option Value :=
  match n.integer?.bind int64? with
  | some i => some (integer i)
  | none => n.scaled?.map float

/-- The value that a JSON value presents. -/
def ofJson? : Json → Option Value
  | .scalar (.number n) => ofNumeral? n
  | .scalar (.string (some s)) => some (text s)
  | _ => none

/-- The value that a JSON text presents. -/
def ofJsonText? (text : String) : Option Value := (Json.ofText? text).bind ofJson?

end Value

end RuleEngine
