import Mathlib.Tactic.SplitIfs
import RuleEngine.Json.Scanner

/-!
# The form of JSON strings

Between its quotes a string may spell each character as itself, by a letter behind a
backslash, or by a code of four hexadecimal digits.  What it names are codes.  A code is
that of a character, or half of a surrogate pair, and two such halves, the first before the
second, are one character.  A half that stands alone is a code too, but then the string
denotes no text.

* `StringForm` — what may stand between the quotes, and the codes that it names;
* `Denotes` — the text of codes;
* `exists_string_of_scanString?`, `scanString?_of_form` — strings are scanned in all their
  forms;
* `textOfUnits?_eq_some_iff` — halves are joined where they are pairs.
-/

namespace RuleEngine

/-- The characters that may stand behind a backslash, and what they stand for. -/
def escapes : List (Char × Char) :=
  [('"', '"'), ('\\', '\\'), ('/', '/'), ('b', '\x08'), ('f', '\x0c'), ('n', '\n'), ('r', '\r'),
    ('t', '\t')]

/-- A hexadecimal digit in either case, and its value. -/
def HexDigit (c : Char) (n : Nat) : Prop :=
  "0123456789abcdef".toList[n]? = some c ∨ "0123456789ABCDEF".toList[n]? = some c

instance (c : Char) (n : Nat) : Decidable (HexDigit c n) :=
  inferInstanceAs (Decidable (_ ∨ _))

/-- What stands between the quotes of a string, and the codes that it names. -/
inductive StringForm : List Char → List Nat → Prop
  | nil : StringForm [] []
  /-- a character that stands for itself -/
  | plain {c : Char} {body : List Char} {codes : List Nat} (hc : 0x20 ≤ c.toNat)
      (hquote : c ≠ '"') (hslash : c ≠ '\\') (h : StringForm body codes) :
      StringForm (c :: body) (c.toNat :: codes)
  | escape {letter c : Char} {body : List Char} {codes : List Nat}
      (hletter : (letter, c) ∈ escapes) (h : StringForm body codes) :
      StringForm ('\\' :: letter :: body) (c.toNat :: codes)
  | code {p q r s : Char} {i j k l : Nat} {body : List Char} {codes : List Nat}
      (hp : HexDigit p i) (hq : HexDigit q j) (hr : HexDigit r k) (hs : HexDigit s l)
      (h : StringForm body codes) :
      StringForm ('\\' :: 'u' :: p :: q :: r :: s :: body)
        ((((i * 16 + j) * 16 + k) * 16 + l) :: codes)

/-- The text that codes denote: each the code of its character, or the two halves of one. -/
inductive Denotes : List Nat → List Char → Prop
  | nil : Denotes [] []
  | char (c : Char) {codes : List Nat} {text : List Char} (h : Denotes codes text) :
      Denotes (c.toNat :: codes) (c :: text)
  | pair {c : Char} {high low : Nat} {codes : List Nat} {text : List Char}
      (hhigh : 0xD800 ≤ high ∧ high ≤ 0xDBFF) (hlow : 0xDC00 ≤ low ∧ low ≤ 0xDFFF)
      (hc : c.toNat = 0x10000 + (high - 0xD800) * 0x400 + (low - 0xDC00))
      (h : Denotes codes text) : Denotes (high :: low :: codes) (c :: text)

/-- The table of escapes is what is read behind a backslash. -/
theorem unescape?_eq_some_iff {letter c : Char} :
    unescape? letter = some c ↔ (letter, c) ∈ escapes := by
  unfold unescape? escapes
  constructor
  · intro h
    split_ifs at h
    all_goals
      subst_vars
      cases h
      decide
  · intro h
    simp only [List.mem_cons, Prod.mk.injEq, List.not_mem_nil, or_false] at h
    rcases h with ⟨rfl, rfl⟩ | ⟨rfl, rfl⟩ | ⟨rfl, rfl⟩ | ⟨rfl, rfl⟩ | ⟨rfl, rfl⟩ | ⟨rfl, rfl⟩ |
      ⟨rfl, rfl⟩ | ⟨rfl, rfl⟩ <;> rfl

theorem hexDigit_lt {c : Char} {n : Nat} (h : HexDigit c n) : n < 16 := by
  rcases h with h | h
  · exact (List.getElem?_eq_some_iff.mp h).1
  · exact (List.getElem?_eq_some_iff.mp h).1

/-- A character has the value that it has as a hexadecimal digit. -/
theorem hexValue?_eq_some_iff {c : Char} {n : Nat} : hexValue? c = some n ↔ HexDigit c n := by
  constructor
  · intro h
    -- a digit is among the first codes, which are finitely many
    have hcode : c.toNat < 0x67 := by
      simp only [hexValue?] at h
      split_ifs at h with h₁ h₂ h₃
      · exact Nat.lt_of_le_of_lt h₁.2 (by decide)
      · exact Nat.lt_of_le_of_lt h₂.2 (by decide)
      · exact Nat.lt_of_le_of_lt h₃.2 (by decide)
    have hall : ∀ code : Fin 0x67,
        ∀ m ∈ hexValue? (Char.ofNat code), HexDigit (Char.ofNat code) m := by decide
    have hc := hall ⟨c.toNat, hcode⟩ n
    rw [Char.ofNat_toNat] at hc
    exact hc h
  · intro h
    have hlower : ∀ m : Fin 16,
        "0123456789abcdef".toList[m.val]?.bind hexValue? = some m.val := by decide
    have hupper : ∀ m : Fin 16,
        "0123456789ABCDEF".toList[m.val]?.bind hexValue? = some m.val := by decide
    have hlt := hexDigit_lt h
    rcases h with h | h
    · have hread := hlower ⟨n, hlt⟩
      rwa [h, Option.bind_some] at hread
    · have hread := hupper ⟨n, hlt⟩
      rwa [h, Option.bind_some] at hread

/-- Four hexadecimal digits are a code, the highest first. -/
theorem fourHex?_eq_some_iff {p q r s : Char} {n : Nat} :
    fourHex? p q r s = some n ↔ ∃ i j k l, HexDigit p i ∧ HexDigit q j ∧ HexDigit r k ∧
      HexDigit s l ∧ n = ((i * 16 + j) * 16 + k) * 16 + l := by
  simp only [← hexValue?_eq_some_iff, fourHex?]
  constructor
  · intro h
    split at h
    · rename_i i j k l hi hj hk hl
      exact ⟨i, j, k, l, hi, hj, hk, hl, (Option.some.inj h).symm⟩
    · cases h
  · intro h
    obtain ⟨i, j, k, l, hi, hj, hk, hl, rfl⟩ := h
    rw [hi, hj, hk, hl]

/-- What is scanned before a closing quote has the form of a string. -/
theorem exists_string_of_scanString? {units content : List Nat} {text after : List Char}
    (h : scanString? units text = some (content, after)) : ∃ body codes,
      text = body ++ '"' :: after ∧ StringForm body codes ∧ content = units.reverse ++ codes := by
  fun_induction scanString? units text with
  | case1 => cases h
  | case2 =>
      obtain ⟨rfl, rfl⟩ := Prod.mk.inj (Option.some.inj h)
      exact ⟨[], [], rfl, .nil, (List.append_nil _).symm⟩
  | case3 units p q r s rest n hn ih =>
      obtain ⟨body, codes, rfl, hform, rfl⟩ := ih h
      obtain ⟨i, j, k, l, hi, hj, hk, hl, rfl⟩ := fourHex?_eq_some_iff.mp hn
      exact ⟨_, _, rfl, .code hi hj hk hl hform, by simp⟩
  | case4 => cases h
  | case5 units letter rest _ c hc ih =>
      obtain ⟨body, codes, rfl, hform, rfl⟩ := ih h
      exact ⟨_, _, rfl, .escape (unescape?_eq_some_iff.mp hc) hform, by simp⟩
  | case6 => cases h
  | case7 => cases h
  | case8 units c rest hquote _ _ hplain ih =>
      obtain ⟨body, codes, rfl, hform, rfl⟩ := ih h
      obtain ⟨hcontrol, hslash⟩ := not_or.mp hplain
      exact ⟨_, _, rfl, .plain (Nat.le_of_not_lt hcontrol) hquote hslash hform, by simp⟩

/-- **Strings are scanned in all their forms.**  The codes come behind those that were
scanned before, which are kept with the last one first. -/
theorem scanString?_of_form {body : List Char} {codes : List Nat} (h : StringForm body codes)
    (units : List Nat) (after : List Char) :
    scanString? units (body ++ '"' :: after) = some (units.reverse ++ codes, after) := by
  induction h generalizing units with
  | nil => rw [List.nil_append, scanString?.eq_2, List.append_nil]
  | plain hc hquote hslash _ ih =>
      have hplain := not_or.mpr ⟨Nat.not_lt_of_le hc, hslash⟩
      rw [List.cons_append, scanString?.eq_5 _ _ _ hquote (fun _ _ _ _ _ h _ => hslash h)
        (fun _ _ h _ => hslash h), if_neg hplain, ih]
      simp
  | @escape letter c body codes hletter _ ih =>
      have hu : letter ≠ 'u' := by
        rintro rfl
        have hnone := unescape?_eq_some_iff.mpr hletter
        cases hnone
      rw [List.cons_append, List.cons_append,
        scanString?.eq_4 _ _ _ (fun _ _ _ _ _ h _ => hu h), unescape?_eq_some_iff.mpr hletter]
      dsimp only
      rw [ih]
      simp
  | @code p q r s i j k l body codes hp hq hr hs _ ih =>
      have hcode := fourHex?_eq_some_iff.mpr ⟨i, j, k, l, hp, hq, hr, hs, rfl⟩
      simp only [List.cons_append]
      rw [scanString?.eq_3, hcode]
      dsimp only
      rw [ih]
      simp

/-- The codes that a string names are codes of characters, or halves of such. -/
theorem StringForm.lt {body : List Char} {codes : List Nat} (h : StringForm body codes) :
    ∀ n ∈ codes, n < 0x110000 := by
  have hchar (c : Char) : c.toNat < 0x110000 := by
    have hvalid : c.toNat < 0xD800 ∨ (0xDFFF < c.toNat ∧ c.toNat < 0x110000) := c.valid
    omega
  induction h with
  | nil => simp
  | plain _ _ _ _ ih => exact List.forall_mem_cons.mpr ⟨hchar _, ih⟩
  | escape _ _ ih => exact List.forall_mem_cons.mpr ⟨hchar _, ih⟩
  | code hp hq hr hs _ ih =>
      have := hexDigit_lt hp
      have := hexDigit_lt hq
      have := hexDigit_lt hr
      have := hexDigit_lt hs
      exact List.forall_mem_cons.mpr ⟨by omega, ih⟩

/-- Without a backslash a string denotes what stands between its quotes. -/
theorem StringForm.denotes {body : List Char} {codes : List Nat} (h : StringForm body codes)
    (hslash : '\\' ∉ body) : Denotes codes body := by
  induction h with
  | nil => exact .nil
  | plain _ _ _ _ ih => exact .char _ (ih (List.not_mem_of_not_mem_cons hslash))
  | escape _ _ _ => exact absurd List.mem_cons_self hslash
  | code _ _ _ _ _ _ => exact absurd List.mem_cons_self hslash

/-- A code that is neither half of a pair nor too large has its character. -/
theorem toNat_ofNat_of_valid {n : Nat} (h : n < 0xD800 ∨ (0xDFFF < n ∧ n < 0x110000)) :
    (Char.ofNat n).toNat = n := by
  have hvalid : n.isValidChar := h
  rw [Char.ofNat, dif_pos hvalid]
  rfl

/-- A character is no half of a surrogate pair. -/
theorem not_surrogate (c : Char) :
    isHighSurrogate c.toNat = false ∧ isLowSurrogate c.toNat = false := by
  have hvalid : c.toNat < 0xD800 ∨ (0xDFFF < c.toNat ∧ c.toNat < 0x110000) := c.valid
  simp only [isHighSurrogate, isLowSurrogate, Bool.and_eq_false_iff, decide_eq_false_iff_not]
  omega

theorem isHighSurrogate_iff {n : Nat} : isHighSurrogate n = true ↔ 0xD800 ≤ n ∧ n ≤ 0xDBFF := by
  simp [isHighSurrogate]

theorem isLowSurrogate_iff {n : Nat} : isLowSurrogate n = true ↔ 0xDC00 ≤ n ∧ n ≤ 0xDFFF := by
  simp [isLowSurrogate]

/-- A code that is no half of a pair is that of a character. -/
theorem toNat_ofNat_of_not_surrogate {n : Nat} (hn : n < 0x110000)
    (hhigh : ¬ isHighSurrogate n = true) (hlow : ¬ isLowSurrogate n = true) :
    (Char.ofNat n).toNat = n := by
  rw [isHighSurrogate_iff] at hhigh
  rw [isLowSurrogate_iff] at hlow
  exact toNat_ofNat_of_valid (by omega)

/-- The text that is made of codes is one that they denote. -/
theorem denotes_of_textOfUnits? {codes : List Nat} {text : List Char}
    (hcodes : ∀ n ∈ codes, n < 0x110000) (h : textOfUnits? codes = some text) :
    Denotes codes text := by
  fun_induction textOfUnits? codes generalizing text with
  | case1 => exact Option.some.inj h ▸ .nil
  | case2 high low rest hhigh hlow ih =>
      obtain ⟨tail, htail, rfl⟩ := Option.map_eq_some_iff.mp h
      have hrest := (List.forall_mem_cons.mp (List.forall_mem_cons.mp hcodes).2).2
      have hh := isHighSurrogate_iff.mp hhigh
      have hl := isLowSurrogate_iff.mp hlow
      exact .pair hh hl (toNat_ofNat_of_valid (by omega)) (ih hrest htail)
  | case3 => cases h
  | case4 => cases h
  | case5 high low rest hhigh hlow ih =>
      obtain ⟨tail, htail, rfl⟩ := Option.map_eq_some_iff.mp h
      obtain ⟨hn, hrest⟩ := List.forall_mem_cons.mp hcodes
      have hform := Denotes.char (Char.ofNat high) (ih hrest htail)
      rwa [toNat_ofNat_of_not_surrogate hn hhigh hlow] at hform
  | case6 => cases h
  | case7 n hnone =>
      obtain ⟨hn, -⟩ := List.forall_mem_cons.mp hcodes
      obtain ⟨hhigh, hlow⟩ := not_or.mp (mt Bool.or_eq_true_iff.mpr hnone)
      have hform := Denotes.char (Char.ofNat n) .nil
      rw [toNat_ofNat_of_not_surrogate hn hhigh hlow] at hform
      exact Option.some.inj h ▸ hform

/-- **Halves are joined where they are pairs,** and every other code is a character. -/
theorem textOfUnits?_of_denotes {codes : List Nat} {text : List Char} (h : Denotes codes text) :
    textOfUnits? codes = some text := by
  induction h with
  | nil => rfl
  | @char c codes text _ ih =>
      obtain ⟨hhigh, hlow⟩ := not_surrogate c
      cases codes with
      | nil =>
          obtain rfl : [] = text := Option.some.inj ih
          simp [textOfUnits?, hhigh, hlow]
      | cons low rest => simp [textOfUnits?, hhigh, hlow, ih]
  | @pair c high low codes text hhigh hlow hc _ ih =>
      simp [textOfUnits?, isHighSurrogate_iff.mpr hhigh, isLowSurrogate_iff.mpr hlow, ih, ← hc]

/-- Codes are a text where they denote it, and where a half is alone they are none. -/
theorem textOfUnits?_eq_some_iff {codes : List Nat} {text : List Char}
    (hcodes : ∀ n ∈ codes, n < 0x110000) : textOfUnits? codes = some text ↔ Denotes codes text :=
  ⟨denotes_of_textOfUnits? hcodes, textOfUnits?_of_denotes⟩

end RuleEngine
