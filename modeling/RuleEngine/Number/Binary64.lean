import RuleEngine.Number.Powers

/-!
# Binary64 numbers

A number is a floating-point number of the IEEE 754 format binary64: not a
number, an infinity with a sign, or a finite magnitude with a sign.  The finite
magnitudes, in ascending order, are numbered from zero on, and a magnitude is
stored as this number, its **rank**.  Rank and encoding agree: the rank is the
value of the sixty-three bits after the sign bit.

Magnitudes are whole multiples of `2 ^ -1074`, so every exact question is one
about natural numbers:

* `unitsOfRank` — the magnitude as a multiple of `2 ^ -1074`;
* `rankOfRatio` — the rank of the magnitude nearest to a quotient of natural
  numbers, a tie going to the even rank: the one rounding of this library;
* `Binary64.compare?` — the order of two numbers, with both zeros equal and
  not a number unordered;
* `Binary64.ofBits`, `Binary64.toBits` — the encoding in sixty-four bits.
-/

namespace RuleEngine

/-- How many ranks there are between two powers of two: `2 ^ 52`. -/
def runLength : Nat := 0x10000000000000

/-- How many finite magnitudes there are: 2047 runs.  It is the place of
infinity. -/
def rankLimit : Nat := 0x7FF0000000000000

/-- The value of the sign bit in an encoding: `2 ^ 63`. -/
def signPlace : Nat := 0x8000000000000000

/-- How many of the least positive magnitudes make one. -/
def unitsInOne : Nat := twoPow 1074

theorem unitsInOne_pos : 0 < unitsInOne := twoPow_pos 1074

/-- A binary64 number.  Not a number is one value: neither its sign nor its
payload is ever seen. -/
inductive Binary64 where
  | nan
  | infinity (negative : Bool)
  | finite (negative : Bool) (rank : Nat) (rank_lt : rank < rankLimit)
  deriving DecidableEq

/-- The magnitude of a rank, counted in units of `2 ^ -1074`.  Below rank
`2 ^ 52` the ranks are the units; from there on each run of `2 ^ 52` ranks
steps twice as wide as the run before. -/
def unitsOfRank (rank : Nat) : Nat :=
  if rank / runLength = 0 then rank
  else (runLength + rank % runLength) * twoPow (rank / runLength - 1)

/-- The integer nearest to a quotient, a half going to the even neighbour. -/
def nearestInteger (num den : Nat) : Nat :=
  let below := num / den
  let twice := 2 * (num % den)
  if twice < den then below
  else if den < twice then below + 1
  else if below % 2 = 0 then below else below + 1

/-- The rank nearest to the quotient `num / den`.  A quotient of `2 ^ 53` units
or more keeps its fifty-three leading bits; rounding up past the last of them
lands on the next run of ranks by itself.  From `rankLimit` on the quotient is
too large for a finite number. -/
def rankOfRatio (num den : Nat) : Nat :=
  let units := num * unitsInOne
  let shift := (units / den).log2 - 52
  shift * runLength + nearestInteger units (den * twoPow shift)

/-- An integer from its sign and its magnitude. -/
def signed (negative : Bool) (magnitude : Nat) : Int :=
  if negative then -(magnitude : Int) else magnitude

@[simp] theorem signed_true (magnitude : Nat) : signed true magnitude = -(magnitude : Int) := rfl

@[simp] theorem signed_false (magnitude : Nat) : signed false magnitude = magnitude := rfl

/-- A signed magnitude is that far from zero. -/
theorem natAbs_signed (negative : Bool) (magnitude : Nat) :
    (signed negative magnitude).natAbs = magnitude := by
  cases negative <;> simp

namespace Binary64

/-- The number of a sign and a rank: infinite from `rankLimit` on. -/
def ofRank (negative : Bool) (rank : Nat) : Binary64 :=
  if h : rank < rankLimit then .finite negative rank h else .infinity negative

/-- The number nearest to `num / den`, with the given sign. -/
def ofRatio (negative : Bool) (num den : Nat) : Binary64 :=
  ofRank negative (rankOfRatio num den)

/-- The number nearest to an integer. -/
def ofInt (n : Int) : Binary64 := ofRatio (n < 0) n.natAbs 1

/-- The place of a number on the line: its rank, counted downwards for negative
numbers.  Both zeros stand at zero, and not a number stands nowhere. -/
def place : Binary64 → Option Int
  | nan => none
  | infinity negative => some (signed negative rankLimit)
  | finite negative rank _ => some (signed negative rank)

/-- The order of two numbers; `none` when one of them is not a number. -/
def compare? (x y : Binary64) : Option Ordering :=
  match x.place, y.place with
  | some p, some q => some (compare p q)
  | _, _ => none

/-- The number without its sign. -/
def abs : Binary64 → Binary64
  | nan => nan
  | infinity _ => infinity false
  | finite _ rank h => finite false rank h

/-- The number has no fractional part.  Infinities have no part that could be
taken off, so they do not count as integral. -/
def isIntegral : Binary64 → Bool
  | finite _ rank _ => unitsOfRank rank % unitsInOne = 0
  | _ => false

/-- The largest signed integer of 128 bits. -/
def int128Max : Int := 0x7FFFFFFFFFFFFFFFFFFFFFFFFFFFFFFF

/-- The least signed integer of 128 bits. -/
def int128Min : Int := -0x80000000000000000000000000000000

/-- The integral part as a signed integer of 128 bits: rounded towards zero,
held at the two ends of that range, and zero for not a number. -/
def toInt128 : Binary64 → Int
  | nan => 0
  | infinity negative => if negative then int128Min else int128Max
  | finite negative rank _ =>
      max int128Min (min int128Max (signed negative (unitsOfRank rank / unitsInOne)))

/-- The number of an encoding: a sign bit before the rank.  Every encoding
above infinity is not a number. -/
def ofBits (bits : BitVec 64) : Binary64 :=
  let negative := bits.msb
  let rank := bits.toNat % signPlace
  if rankLimit < rank then nan else ofRank negative rank

/-- The encoding of a number; the quiet encoding for not a number. -/
def toBits : Binary64 → BitVec 64
  | nan => 0x7FF8000000000000#64
  | infinity negative => BitVec.ofNat 64 (negative.toNat * signPlace + rankLimit)
  | finite negative rank _ => BitVec.ofNat 64 (negative.toNat * signPlace + rank)

/-- A sign bit before a rank of sixty-three bits. -/
theorem ofBits_ofNat (negative : Bool) {rank : Nat} (h : rank ≤ rankLimit) :
    ofBits (BitVec.ofNat 64 (negative.toNat * signPlace + rank)) = ofRank negative rank := by
  have hlt : rank < signPlace := Nat.lt_of_le_of_lt h (by decide)
  have hbits : (BitVec.ofNat 64 (negative.toNat * signPlace + rank)).toNat =
      negative.toNat * signPlace + rank := by
    rw [BitVec.toNat_ofNat]
    apply Nat.mod_eq_of_lt
    simp only [signPlace] at hlt ⊢
    have hone : negative.toNat ≤ 1 := Bool.toNat_le negative
    omega
  have hsign : (BitVec.ofNat 64 (negative.toNat * signPlace + rank)).msb = negative := by
    rw [BitVec.msb_eq_decide, hbits]
    simp only [signPlace] at hlt ⊢
    cases negative with
    | false =>
        refine decide_eq_false ?_
        rw [Bool.toNat_false]
        omega
    | true =>
        refine decide_eq_true ?_
        rw [Bool.toNat_true]
        omega
  have hrank : (negative.toNat * signPlace + rank) % signPlace = rank := by
    rw [Nat.mul_add_mod', Nat.mod_eq_of_lt hlt]
  rw [ofBits, hsign, hbits, hrank, if_neg (Nat.not_lt.mpr h)]

/-- A number is read back from its encoding. -/
theorem ofBits_toBits (x : Binary64) : ofBits (toBits x) = x := by
  cases x with
  | nan => decide
  | infinity negative =>
      rw [toBits, ofBits_ofNat negative (Nat.le_refl _), ofRank, dif_neg (Nat.lt_irrefl _)]
  | finite negative rank hrank =>
      rw [toBits, ofBits_ofNat negative (Nat.le_of_lt hrank), ofRank, dif_pos hrank]

/-- A number is ordered against another exactly when neither is not a number. -/
theorem compare?_eq_none_iff {x y : Binary64} :
    x.compare? y = none ↔ x = nan ∨ y = nan := by
  cases x <;> cases y <;> simp [compare?, place]

end Binary64

end RuleEngine
