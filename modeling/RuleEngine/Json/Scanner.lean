import RuleEngine.Json.Basic
import RuleEngine.Number.Digits
import RuleEngine.Number.Literal

/-!
# Tokens of JSON text

The strict form of JSON text: no blanks but space, tab, line feed and carriage
return, no leading zeros, no sign but minus before a number, a digit on either
side of every point, and no raw control character in a string.

* `scanToken?` — the token that a text starts with, and the text after it;
* `tokensOf?` — the tokens of a whole text.
-/

namespace RuleEngine

/-- The blanks of JSON text. -/
def isJsonBlank (c : Char) : Bool := c = ' ' || c = '\t' || c = '\n' || c = '\r'

/-- The tokens of a single character. -/
def punctuation? (c : Char) : Option Token :=
  if c = '[' then some .openArray
  else if c = ']' then some .closeArray
  else if c = '\x7b' then some .openObject
  else if c = '\x7d' then some .closeObject
  else if c = ',' then some .comma
  else if c = ':' then some .colon
  else none

/-- The character that a backslash and a letter stand for. -/
def unescape? (letter : Char) : Option Char :=
  if letter = '"' then some '"'
  else if letter = '\\' then some '\\'
  else if letter = '/' then some '/'
  else if letter = 'b' then some '\x08'
  else if letter = 'f' then some '\x0c'
  else if letter = 'n' then some '\n'
  else if letter = 'r' then some '\r'
  else if letter = 't' then some '\t'
  else none

/-- The value of four hexadecimal digits. -/
def fourHex? (a b c d : Char) : Option Nat :=
  match hexValue? a, hexValue? b, hexValue? c, hexValue? d with
  | some p, some q, some r, some s => some (((p * 16 + q) * 16 + r) * 16 + s)
  | _, _, _, _ => none

/-- The content of a string literal after its opening quote, and the text after
its closing one.  The content is code points, and single halves of surrogate
pairs where escapes name them; `units` holds those before, the last one
first. -/
def scanString? (units : List Nat) : List Char → Option (List Nat × List Char)
  | [] => none
  | '"' :: rest => some (units.reverse, rest)
  | '\\' :: 'u' :: a :: b :: c :: d :: rest =>
      match fourHex? a b c d with
      | some n => scanString? (n :: units) rest
      | none => none
  | '\\' :: letter :: rest =>
      match unescape? letter with
      | some c => scanString? (c.toNat :: units) rest
      | none => none
  | c :: rest => if c.toNat < 0x20 ∨ c = '\\' then none else scanString? (c.toNat :: units) rest

/-- The first half of a surrogate pair. -/
def isHighSurrogate (n : Nat) : Bool := 0xD800 ≤ n && n ≤ 0xDBFF

/-- The second half of a surrogate pair. -/
def isLowSurrogate (n : Nat) : Bool := 0xDC00 ≤ n && n ≤ 0xDFFF

/-- The text that a string's content denotes: surrogate halves must come in
pairs, a first one directly before a second one. -/
def textOfUnits? : List Nat → Option (List Char)
  | [] => some []
  | high :: low :: rest =>
      if isHighSurrogate high then
        if isLowSurrogate low then
          (textOfUnits? rest).map
            (Char.ofNat (0x10000 + (high - 0xD800) * 0x400 + (low - 0xDC00)) :: ·)
        else none
      else if isLowSurrogate high then none
      else (textOfUnits? (low :: rest)).map (Char.ofNat high :: ·)
  | [n] =>
      if isHighSurrogate n || isLowSurrogate n then none else some [Char.ofNat n]

/-- The whole part of a number: zero alone, or digits that do not start with
zero. -/
def scanWhole? : List Char → Option (Nat × List Char)
  | '0' :: rest => some (0, rest)
  | text =>
      let (digits, after) := spanDigits text
      if digits.isEmpty then none else some (valueOf digits, after)

/-- The fraction of a number, which may be missing: a point and digits. -/
def scanFraction? : List Char → Option (List Digit × List Char)
  | '.' :: rest =>
      let (digits, after) := spanDigits rest
      if digits.isEmpty then none else some (digits, after)
  | text => some ([], text)

/-- The number that a text starts with, and the text after it. -/
def scanNumeral? (text : List Char) : Option (Numeral × List Char) :=
  let (negative, body) :=
    match text with
    | '-' :: rest => (true, rest)
    | text => (false, text)
  match scanWhole? body with
  | none => none
  | some (whole, afterWhole) =>
      match scanFraction? afterWhole with
      | none => none
      | some (fraction, afterFraction) =>
          match scanExponent? afterFraction with
          | none => none
          | some (exponent, after) => some (⟨negative, whole, fraction, exponent⟩, after)

/-- The three words of JSON text. -/
def scanWord? : List Char → Option (Scalar × List Char)
  | 'n' :: 'u' :: 'l' :: 'l' :: rest => some (.null, rest)
  | 't' :: 'r' :: 'u' :: 'e' :: rest => some (.bool true, rest)
  | 'f' :: 'a' :: 'l' :: 's' :: 'e' :: rest => some (.bool false, rest)
  | _ => none

/-- The token that a text starts with, and the text after it. -/
def scanToken? (c : Char) (rest : List Char) : Option (Token × List Char) :=
  match punctuation? c with
  | some token => some (token, rest)
  | none =>
      if c = '"' then
        (scanString? [] rest).map fun (units, after) =>
          (.scalar (.string ((textOfUnits? units).map String.ofList)), after)
      else if c = '-' ∨ isDigitChar c then
        (scanNumeral? (c :: rest)).map fun (numeral, after) => (.scalar (.number numeral), after)
      else (scanWord? (c :: rest)).map fun (word, after) => (.scalar word, after)

/-- What follows a string literal is shorter than what it was read from. -/
theorem length_lt_of_scanString? {units content : List Nat} {text after : List Char}
    (h : scanString? units text = some (content, after)) : after.length < text.length := by
  fun_induction scanString? units text with
  | case1 => simp at h
  | case2 => simp_all
  | case3 units a b c d rest n hn ih => have := ih h; simp; omega
  | case4 => simp at h
  | case5 units letter rest _ c hc ih => have := ih h; simp; omega
  | case6 => simp at h
  | case7 => simp at h
  | case8 units c rest _ _ _ _ ih => have := ih h; simp; omega

/-- Digits are taken from the front of a text. -/
theorem length_spanDigits (text : List Char) :
    (spanDigits text).1.length + (spanDigits text).2.length = text.length := by
  fun_induction spanDigits text with
  | case1 => rfl
  | case2 => simp
  | case3 c rest d hd digits after heq ih => simp_all; omega

/-- A whole part has a digit at least. -/
theorem length_lt_of_scanWhole? {text after : List Char} {n : Nat}
    (h : scanWhole? text = some (n, after)) : after.length < text.length := by
  unfold scanWhole? at h
  split at h
  · simp only [Option.some.injEq, Prod.mk.injEq] at h
    simp [← h.2]
  · have hlen := length_spanDigits text
    simp only at h
    split at h
    · simp at h
    · rename_i hne
      simp only [Option.some.injEq, Prod.mk.injEq] at h
      have hpos : 0 < (spanDigits text).1.length := by
        rw [List.length_pos_iff]; simpa using hne
      rw [← h.2]; omega

/-- A fraction is taken from the front of a text. -/
theorem length_le_of_scanFraction? {text after : List Char} {fraction : List Digit}
    (h : scanFraction? text = some (fraction, after)) : after.length ≤ text.length := by
  unfold scanFraction? at h
  split at h
  · rename_i rest
    have hlen := length_spanDigits rest
    simp only at h
    split at h
    · simp at h
    · simp only [Option.some.injEq, Prod.mk.injEq] at h
      rw [List.length_cons, ← h.2]; omega
  · simp only [Option.some.injEq, Prod.mk.injEq] at h
    exact Nat.le_of_eq (congrArg List.length h.2.symm)

/-- A sign is taken from the front of a text. -/
theorem length_splitSign_le (text : List Char) : (splitSign text).2.length ≤ text.length := by
  unfold splitSign
  split <;> simp

/-- An exponent is taken from the front of a text. -/
theorem length_le_of_scanExponent? {text after : List Char} {exponent : Option Int}
    (h : scanExponent? text = some (exponent, after)) : after.length ≤ text.length := by
  unfold scanExponent? at h
  split at h
  · simp only [Option.some.injEq, Prod.mk.injEq] at h
    simp [← h.2]
  · rename_i c rest
    split at h
    · have hsign := length_splitSign_le rest
      have hlen := length_spanDigits (splitSign rest).2
      simp only at h
      split at h
      · simp at h
      · simp only [Option.some.injEq, Prod.mk.injEq] at h
        rw [List.length_cons, ← h.2]; omega
    · simp only [Option.some.injEq, Prod.mk.injEq] at h
      exact Nat.le_of_eq (congrArg List.length h.2.symm)

/-- What follows a number is shorter than what it was read from. -/
theorem length_lt_of_scanNumeral? {text after : List Char} {n : Numeral}
    (h : scanNumeral? text = some (n, after)) : after.length < text.length := by
  unfold scanNumeral? at h
  simp only at h
  split at h
  · simp at h
  · rename_i whole afterWhole hwhole
    split at h
    · simp at h
    · rename_i fraction afterFraction hfraction
      split at h
      · simp at h
      · rename_i exponent rest hexponent
        simp only [Option.some.injEq, Prod.mk.injEq] at h
        have hw := length_lt_of_scanWhole? hwhole
        have hf := length_le_of_scanFraction? hfraction
        have he := length_le_of_scanExponent? hexponent
        have hbody : (match text with
            | '-' :: rest => (true, rest)
            | text => (false, text)).2.length ≤ text.length := by
          split <;> simp
        rw [← h.2]; omega

/-- A word is taken from the front of a text. -/
theorem length_lt_of_scanWord? {text after : List Char} {s : Scalar}
    (h : scanWord? text = some (s, after)) : after.length < text.length := by
  unfold scanWord? at h
  split at h <;> simp only [Option.some.injEq, Prod.mk.injEq, reduceCtorEq] at h <;>
    (obtain ⟨_, rfl⟩ := h; simp only [List.length_cons]; omega)

/-- What follows a token is shorter than what it was read from. -/
theorem length_lt_of_scanToken? {c : Char} {rest after : List Char} {token : Token}
    (h : scanToken? c rest = some (token, after)) : after.length < rest.length + 1 := by
  unfold scanToken? at h
  split at h
  · simp only [Option.some.injEq, Prod.mk.injEq] at h
    rw [h.2]; omega
  · split at h
    · simp only [Option.map_eq_some_iff, Prod.mk.injEq] at h
      obtain ⟨⟨units, tail⟩, hscan, _, rfl⟩ := h
      exact Nat.lt_succ_of_lt (length_lt_of_scanString? hscan)
    · split at h
      · simp only [Option.map_eq_some_iff, Prod.mk.injEq] at h
        obtain ⟨⟨n, tail⟩, hscan, _, rfl⟩ := h
        simpa using length_lt_of_scanNumeral? hscan
      · simp only [Option.map_eq_some_iff, Prod.mk.injEq] at h
        obtain ⟨⟨word, tail⟩, hscan, _, rfl⟩ := h
        simpa using length_lt_of_scanWord? hscan

/-- Scans tokens off a text; `read` holds those before, the last one first. -/
def tokensFrom? (read : List Token) (text : List Char) : Option (List Token) :=
  match text with
  | [] => some read.reverse
  | c :: rest =>
      if isJsonBlank c then tokensFrom? read rest
      else
        match _h : scanToken? c rest with
        | none => none
        | some (token, after) => tokensFrom? (token :: read) after
termination_by text.length
decreasing_by
  · simp
  · have := length_lt_of_scanToken? _h; simp only [List.length_cons]; omega

/-- The tokens of a JSON text, `none` where a piece of it is no token. -/
def tokensOf? (text : String) : Option (List Token) := tokensFrom? [] text.toList

end RuleEngine
