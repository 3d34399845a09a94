import RuleEngine.Number.Numeral

/-!
# Scaled reading of numerals

Numbers in JSON text are read in a counter of sixty-four bits and scaled by a
power of ten.  The counter takes the leading digits while they fit; of the
digits after them those of the whole part count as zeros, and those of the
fraction are dropped.  The counter goes to the nearest binary64 number, which
is then multiplied or divided by the nearest number to the power of ten, and
rounded again.  With few digits and small exponents both steps are exact; past
that the result may be a neighbour of the number nearest to the numeral.

* `Numeral.scaled?` — the number so read, `none` when it is too large.
-/

namespace RuleEngine

/-- The counter stays below this bound: `2 ^ 64`. -/
def counterLimit : Nat := 0x10000000000000000

/-- The leading digits of a number that fit the counter, and how many digits
were cut off behind them. -/
def clipWhole (n : Nat) : Nat × Nat :=
  if n < counterLimit then (n, 0)
  else
    let (kept, cut) := clipWhole (n / 10)
    (kept, cut + 1)
termination_by n
decreasing_by simp only [counterLimit] at *; omega

/-- The counter after taking more digits while it stays below its limit, and how
many it took. -/
def takeDigits (counter : Nat) : List Digit → Nat × Nat
  | [] => (counter, 0)
  | d :: rest =>
      if 10 * counter + d.val < counterLimit then
        let (last, taken) := takeDigits (10 * counter + d.val) rest
        (last, taken + 1)
      else (counter, 0)

/-- The rank of the power of ten with a given exponent. -/
def powerRank (exponent : Nat) : Nat := rankOfRatio (tenPow exponent) 1

/-- The rank of a product. -/
def productRank (a b : Nat) : Nat :=
  rankOfRatio (unitsOfRank a * unitsOfRank b) (unitsInOne * unitsInOne)

/-- The rank of a quotient. -/
def quotientRank (a b : Nat) : Nat := rankOfRatio (unitsOfRank a) (unitsOfRank b)

/-- The largest exponent that a finite power of ten has. -/
def largestPower : Nat := 308

/-- A magnitude times a power of ten, in one multiplication or division where
the power is finite.  Larger magnitudes fail; smaller ones are divided by the
largest power first, until they vanish or the rest is within reach. -/
def scaleRank (rank : Nat) (exponent : Int) : Option Nat :=
  if exponent.natAbs ≤ largestPower then
    if 0 ≤ exponent then
      let product := productRank rank (powerRank exponent.toNat)
      if product < rankLimit then some product else none
    else some (quotientRank rank (powerRank (-exponent).toNat))
  else if rank = 0 then some 0
  else if 0 ≤ exponent then none
  else scaleRank (quotientRank rank (powerRank largestPower)) (exponent + largestPower)
termination_by exponent.natAbs
decreasing_by simp only [largestPower] at *; omega

namespace Numeral

/-- The counter of a numeral's leading digits, and the exponent of ten that
stands with it. -/
def counter (n : Numeral) : Nat × Int :=
  let (whole, cut) := clipWhole n.whole
  let (digits, taken) := takeDigits whole n.fraction
  (digits, n.exponent.getD 0 + cut - taken)

/-- The number of a numeral in scaled reading. -/
def scaled? (n : Numeral) : Option Binary64 :=
  let (digits, exponent) := n.counter
  (scaleRank (rankOfRatio digits 1) exponent).map (.ofRank n.negative)

end Numeral

end RuleEngine
