import RuleEngine.Number.Binary64

/-!
# Decimals and the numbers nearest to them

A decimal is a natural number times a power of ten.

* `Decimal.toBinary64` — the number nearest to a decimal, with a sign: correctly
  rounded for every decimal, however many digits it has;
* `shortest` — the decimal with the fewest digits that reads back to a given
  magnitude, and of two of the same length the nearer one.

Reading compares no decimal with a table: it rounds the exact quotient.  Only
decimals that are far outside the finite range are settled without computing
their power of ten.
-/

namespace RuleEngine

/-- The magnitude `digits * 10 ^ exponent`. -/
structure Decimal where
  digits : Nat
  exponent : Int
  deriving DecidableEq, Repr

/-- What is chosen between two decimals that are equally near. -/
inductive Tie where
  /-- the larger magnitude -/
  | up
  /-- the even last digit -/
  | even
  deriving DecidableEq, Repr

namespace Decimal

/-- The rank nearest to a decimal, computed from the exact quotient. -/
def rank (d : Decimal) : Nat :=
  rankOfRatio (d.digits * tenPow d.exponent.toNat) (tenPow (-d.exponent).toNat)

/-- The number nearest to a decimal.  A positive decimal with an exponent above
400 exceeds every finite number; one that is below `10 ^ -400` by the count of
its binary digits alone is nearest to zero. -/
def toBinary64 (negative : Bool) (d : Decimal) : Binary64 :=
  if d.digits = 0 then .ofRank negative 0
  else if 400 < d.exponent then .infinity negative
  else if d.exponent < -(401 + d.digits.log2 : Int) then .ofRank negative 0
  else .ofRank negative d.rank

end Decimal

/-- The nearer of two neighbouring decimals to the quotient `num / den`, which
lies between them when both are counted in steps of their grid. -/
def nearer (tie : Tie) (num den : Nat) (below above : Decimal) : Decimal :=
  match compare (2 * num) ((below.digits + above.digits) * den) with
  | .lt => below
  | .gt => above
  | .eq => if tie = .even ∧ below.digits % 2 = 0 then below else above

/-- The decimal on the grid `10 ^ exponent` that reads back to a rank, if there
is one.  Only the two neighbours of the magnitude on the grid can; of two that
do, the nearer is taken. -/
def onGrid? (tie : Tie) (rank : Nat) (exponent : Int) : Option Decimal :=
  let num := unitsOfRank rank * tenPow (-exponent).toNat
  let den := unitsInOne * tenPow exponent.toNat
  let below : Decimal := ⟨num / den, exponent⟩
  let above : Decimal := ⟨num / den + 1, exponent⟩
  if below.rank = rank then
    if above.rank = rank then some (nearer tie num den below above) else some below
  else if above.rank = rank then some above
  else none

/-- An exponent of ten that a magnitude of the given units does not reach.  A
power of two is bounded by a power of ten through `0.30103`, which is just above
the logarithm of two. -/
def topExponent (units : Nat) : Int := ((units.log2 : Int) - 1073) * 30103 / 100000 + 1

/-- The decimal that equals a magnitude exactly: a power of two below one is a
power of five over a power of ten. -/
def exactDecimal (units : Nat) : Decimal := ⟨units * Nat.pow 5 1074, -1074⟩

/-- The decimal with the fewest digits that reads back to a rank.  The grids
are tried from the coarsest on; seventeen digits always suffice, and the exact
decimal stands behind them. -/
def shortest (tie : Tie) (rank : Nat) : Decimal :=
  if rank = 0 then ⟨0, 0⟩
  else
    let units := unitsOfRank rank
    let top := topExponent units
    let grids := (List.range 20).map fun (i : Nat) => top - 1 - (i : Int)
    (grids.findSome? (onGrid? tie rank)).getD (exactDecimal units)

/-- The nearer of two decimals is one of them. -/
theorem nearer_eq_or (tie : Tie) (num den : Nat) (below above : Decimal) :
    nearer tie num den below above = below ∨ nearer tie num den below above = above := by
  unfold nearer
  split
  · exact .inl rfl
  · exact .inr rfl
  · split
    · exact .inl rfl
    · exact .inr rfl

/-- What stands on a grid for a rank reads back to it. -/
theorem rank_of_onGrid? {tie : Tie} {rank : Nat} {exponent : Int} {d : Decimal}
    (h : onGrid? tie rank exponent = some d) : d.rank = rank := by
  simp only [onGrid?] at h
  split at h
  · rename_i hbelow
    split at h
    · rename_i habove
      rw [← Option.some.inj h]
      rcases nearer_eq_or tie _ _ _ _ with heq | heq
      · rw [heq]; exact hbelow
      · rw [heq]; exact habove
    · rw [← Option.some.inj h]; exact hbelow
  · split at h
    · rename_i habove; rw [← Option.some.inj h]; exact habove
    · exact absurd h (by simp)

end RuleEngine
