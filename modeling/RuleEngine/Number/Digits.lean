/-!
# Digits

Natural numbers as lists of decimal digits, the leading digit first, and the
hexadecimal digits of character escapes, which are written in lower case and
read in both cases.

* `digitsOf`, `valueOf` — a natural number to its digits and back;
* `valueOf_digitsOf` — writing a number and reading it gives it back;
* `spanDigits` — the digits that a text starts with, and the text after them;
* `hexText`, `hexValue?` — hexadecimal digits.
-/

namespace RuleEngine

/-! ## Decimal digits -/

/-- A decimal digit. -/
abbrev Digit := Fin 10

/-- The decimal digits of a number, without leading zeros; zero is one digit. -/
def digitsOf (n : Nat) : List Digit :=
  if h : n < 10 then [⟨n, h⟩]
  else digitsOf (n / 10) ++ [⟨n % 10, Nat.mod_lt n (by decide)⟩]
termination_by n

/-- The number that digits write, starting from a number written before them. -/
def valueFrom (start : Nat) (digits : List Digit) : Nat :=
  digits.foldl (fun n d => 10 * n + d.val) start

/-- The number that digits write; no digits write zero. -/
def valueOf (digits : List Digit) : Nat := valueFrom 0 digits

/-- The character of a digit. -/
def Digit.toChar (d : Digit) : Char := Char.ofNat ('0'.toNat + d.val)

/-- The digit of an ASCII digit character; no other character is a digit. -/
def digitOfChar? (c : Char) : Option Digit :=
  if h : '0'.toNat ≤ c.toNat ∧ c.toNat < '0'.toNat + 10 then
    some ⟨c.toNat - '0'.toNat, by omega⟩
  else none

/-- The digits that a text starts with, and the text after them. -/
def spanDigits : List Char → List Digit × List Char
  | [] => ([], [])
  | c :: rest =>
      match digitOfChar? c with
      | none => ([], c :: rest)
      | some d => let (digits, after) := spanDigits rest; (d :: digits, after)

/-- Digits as text. -/
def digitText (digits : List Digit) : List Char := digits.map Digit.toChar

/-- A natural number in decimal. -/
def naturalText (n : Nat) : List Char := digitText (digitsOf n)

/-- An integer in decimal, with a sign when it is negative. -/
def integerText (n : Int) : List Char :=
  if n < 0 then '-' :: naturalText n.natAbs else naturalText n.natAbs

/-- Reading on after more digits. -/
theorem valueFrom_append (start : Nat) (ds es : List Digit) :
    valueFrom start (ds ++ es) = valueFrom (valueFrom start ds) es :=
  List.foldl_append

/-- Zeros before the first digit do not count. -/
theorem valueOf_replicate_zero_append (n : Nat) (digits : List Digit) :
    valueOf (List.replicate n 0 ++ digits) = valueOf digits := by
  induction n with
  | zero => rfl
  | succ n ih => exact ih

/-- Writing a number in decimal and reading it gives it back. -/
theorem valueOf_digitsOf (n : Nat) : valueOf (digitsOf n) = n := by
  fun_induction digitsOf n with
  | case1 n h => simp [valueOf, valueFrom]
  | case2 n h ih =>
      rw [valueOf, valueFrom_append, ← valueOf, ih]
      simp only [valueFrom, List.foldl_cons, List.foldl_nil]
      omega

/-- A number has at least one digit. -/
theorem digitsOf_ne_nil (n : Nat) : digitsOf n ≠ [] := by
  unfold digitsOf
  split <;> simp

/-- The character of a digit is read as that digit. -/
theorem digitOfChar?_toChar (d : Digit) : digitOfChar? d.toChar = some d := by
  revert d
  decide

/-! ## Hexadecimal digits -/

/-- The last hexadecimal digit of a number as a character, in lower case. -/
def hexChar (n : Nat) : Char :=
  let d := n % 16
  if d < 10 then Char.ofNat ('0'.toNat + d) else Char.ofNat ('a'.toNat + d - 10)

/-- The value of a hexadecimal digit, in either case. -/
def hexValue? (c : Char) : Option Nat :=
  let n := c.toNat
  if '0'.toNat ≤ n ∧ n ≤ '9'.toNat then some (n - '0'.toNat)
  else if 'a'.toNat ≤ n ∧ n ≤ 'f'.toNat then some (n - 'a'.toNat + 10)
  else if 'A'.toNat ≤ n ∧ n ≤ 'F'.toNat then some (n - 'A'.toNat + 10)
  else none

/-- A number in hexadecimal, without leading zeros. -/
def hexText (n : Nat) : List Char :=
  if n < 16 then [hexChar n] else hexText (n / 16) ++ [hexChar n]
termination_by n

/-- A hexadecimal digit is read as it was written. -/
theorem hexValue?_hexChar (n : Nat) : hexValue? (hexChar n) = some (n % 16) := by
  have hall : ∀ d : Fin 16, hexValue? (hexChar d.val) = some (d.val % 16) := by decide
  have h := hall ⟨n % 16, Nat.mod_lt n (by decide)⟩
  simpa [hexChar, Nat.mod_mod] using h

end RuleEngine
