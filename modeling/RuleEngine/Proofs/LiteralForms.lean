import RuleEngine.Proofs.NumberForms

/-!
# The form of literals

What a condition takes for a number.  A literal is a sign, or none, before a word for
infinity or for not a number, in any case of letters, or before a numeral; a numeral has
digits on one side of its point at least, and an exponent or none.  The form is told over
any form of runs of digits.  With runs that have nothing between their digits it is what
the reader of literals reads once the underscores are gone.

* `AnyCase`, `MantissaForm`, `LiteralForm` — the forms, and the number of a literal;
* `map_toLower_eq_iff`, `not_mem_of_anyCase` — words in any case of letters;
* `exists_form_of_readNumeral?`, `readNumeral?_of_form` — numerals are read in all their
  forms;
* `literalForm_of_readPlainLiteral?`, `readPlainLiteral?_eq_some_iff` — and so are literals
  without underscores;
* `readLiteral?_text` — a numeral that was written among them.
-/

namespace RuleEngine

/-- A text is a word in small letters, some of which may be capital in the text. -/
def AnyCase (word text : List Char) : Prop :=
  List.Forall₂ (fun letter c => c = letter ∨ c = letter.toUpper) word text

/-- Digits with a point or without one, on one side of it at least: the digits before the
point, and those behind it. -/
inductive MantissaForm (Run : List Char → List Digit → Prop) :
    List Char → List Digit → List Digit → Prop
  | whole {text : List Char} {digits : List Digit} (h : Run text digits) :
      MantissaForm Run text digits []
  | point {text : List Char} {digits : List Digit} (h : Run text digits) :
      MantissaForm Run (text ++ ['.']) digits []
  | fraction {text : List Char} {digits : List Digit} (h : Run text digits) :
      MantissaForm Run ('.' :: text) [] digits
  | both {text text' : List Char} {digits digits' : List Digit} (h : Run text digits)
      (h' : Run text' digits') : MantissaForm Run (text ++ '.' :: text') digits digits'

/-- A literal and its number. -/
inductive LiteralForm (Run : List Char → List Digit → Prop) : List Char → Binary64 → Prop
  | nan {sign word : List Char} {negative : Bool} (hsign : SignForm sign negative)
      (hword : AnyCase "nan".toList word) : LiteralForm Run (sign ++ word) .nan
  | infinity {sign word : List Char} {negative : Bool} (hsign : SignForm sign negative)
      (hword : AnyCase "inf".toList word ∨ AnyCase "infinity".toList word) :
      LiteralForm Run (sign ++ word) (.infinity negative)
  | numeral {sign mantissa part : List Char} {negative : Bool} {whole fraction : List Digit}
      {exponent : Option Int} (hsign : SignForm sign negative)
      (hmantissa : MantissaForm Run mantissa whole fraction)
      (hexponent : ExponentForm Run part exponent) :
      LiteralForm Run (sign ++ (mantissa ++ part))
        (Numeral.toBinary64 ⟨negative, valueOf whole, fraction, exponent⟩)

/-! ## Words in any case of letters -/

/-- A character is a small letter. -/
def IsSmall (letter : Char) : Prop := 'a' ≤ letter ∧ letter ≤ 'z'

instance (letter : Char) : Decidable (IsSmall letter) :=
  inferInstanceAs (Decidable ('a' ≤ letter ∧ letter ≤ 'z'))

/-- Small and capital letters are 32 codes apart. -/
theorem toNat_toLower (c : Char) :
    c.toLower.toNat = if 65 ≤ c.toNat ∧ c.toNat ≤ 90 then c.toNat + 32 else c.toNat := by
  have hcapital : (c.val ≥ 'A'.val ∧ c.val ≤ 'Z'.val) ↔ 65 ≤ c.toNat ∧ c.toNat ≤ 90 := by
    simp only [ge_iff_le, UInt32.le_iff_toNat_le]
    rfl
  by_cases h : c.val ≥ 'A'.val ∧ c.val ≤ 'Z'.val
  · have hrange := hcapital.mp h
    have hcode : (c.val + ('a'.val - 'A'.val)).toNat = (c.toNat + 32) % 4294967296 :=
      UInt32.toNat_add _ _
    have hlower : c.toLower.val = c.val + ('a'.val - 'A'.val) := by
      delta Char.toLower
      rw [dif_pos h]
    rw [if_pos hrange, Char.toNat, hlower, hcode]
    omega
  · have hlower : c.toLower = c := dif_neg h
    rw [if_neg (mt hcapital.mpr h), hlower]

theorem isSmall_iff {letter : Char} :
    IsSmall letter ↔ 97 ≤ letter.toNat ∧ letter.toNat ≤ 122 := by
  simp only [IsSmall, Char.le_def, UInt32.le_iff_toNat_le]
  rfl

theorem toNat_toUpper {letter : Char} (h : IsSmall letter) :
    letter.toUpper.toNat + 32 = letter.toNat := by
  have hrange := isSmall_iff.mp h
  have hcode : (letter.val + ('A'.val - 'a'.val)).toNat =
      (letter.toNat + 4294967264) % 4294967296 := UInt32.toNat_add _ _
  have hsmall : 'a'.val ≤ letter.val ∧ letter.val ≤ 'z'.val := h
  have hupper : letter.toUpper.val = letter.val + ('A'.val - 'a'.val) := by
    delta Char.toUpper
    rw [dif_pos hsmall]
  rw [Char.toNat, hupper, hcode]
  omega

/-- What becomes a small letter is this letter or its capital. -/
theorem toLower_eq_iff {letter c : Char} (h : IsSmall letter) :
    c.toLower = letter ↔ c = letter ∨ c = letter.toUpper := by
  have hrange := isSmall_iff.mp h
  have hupper := toNat_toUpper h
  simp only [← Char.toNat_inj, toNat_toLower]
  split <;> omega

/-- What becomes a word in small letters is this word in any case. -/
theorem map_toLower_eq_iff {word text : List Char} (h : ∀ letter ∈ word, IsSmall letter) :
    text.map Char.toLower = word ↔ AnyCase word text := by
  induction word generalizing text with
  | nil => simp [AnyCase]
  | cons letter word ih =>
      obtain ⟨hletter, hword⟩ := List.forall_mem_cons.mp h
      cases text with
      | nil => simp [AnyCase]
      | cons c text =>
          rw [AnyCase, List.forall₂_cons, ← AnyCase, ← ih hword, ← toLower_eq_iff hletter,
            List.map_cons, List.cons.injEq]

/-- Whatever case they are in, its characters are letters. -/
theorem AnyCase.isSmall_toLower {word text : List Char} (h : AnyCase word text)
    (hword : ∀ letter ∈ word, IsSmall letter) : ∀ c ∈ text, IsSmall c.toLower := by
  intro c hc
  apply hword
  rw [← (map_toLower_eq_iff hword).mpr h]
  exact List.mem_map_of_mem hc

/-- The words that may stand for a number. -/
def numberWords : List (List Char) := ["nan".toList, "inf".toList, "infinity".toList]

theorem isSmall_numberWords : ∀ word ∈ numberWords, ∀ letter ∈ word, IsSmall letter := by
  simp [numberWords, IsSmall]

/-- A text in small letters is one of the words where it is this word in any case. -/
theorem map_toLower_eq_numberWord_iff {word text : List Char} (h : word ∈ numberWords) :
    text.map Char.toLower = word ↔ AnyCase word text :=
  map_toLower_eq_iff (isSmall_numberWords word h)

/-- A character that is no letter is in no such word. -/
theorem not_mem_of_anyCase {word text : List Char} (hword : word ∈ numberWords)
    (h : AnyCase word text) {c : Char} (hc : ¬ IsSmall c.toLower) : c ∉ text :=
  fun hmem => hc (h.isSmall_toLower (isSmall_numberWords word hword) c hmem)

theorem not_isSmall_toChar (d : Digit) : ¬ IsSmall d.toChar.toLower := by
  revert d
  decide

/-! ## Numerals without underscores -/

/-- What the reader of numerals makes of the parts of a text. -/
def numeralOfParts? (negative : Bool) (whole fraction : List Digit) (rest : List Char) :
    Option Numeral :=
  if whole.isEmpty && fraction.isEmpty then none
  else
    match scanExponent? rest with
    | some (exponent, []) => some ⟨negative, valueOf whole, fraction, exponent⟩
    | _ => none

/-- Parts are a numeral where there is a digit in them, and behind them an exponent or nothing. -/
theorem numeralOfParts?_eq_some_iff {negative : Bool} {whole fraction : List Digit}
    {rest : List Char} {n : Numeral} :
    numeralOfParts? negative whole fraction rest = some n ↔
      ¬ (whole = [] ∧ fraction = []) ∧ ∃ exponent, ExponentForm PlainDigits rest exponent ∧
        n = ⟨negative, valueOf whole, fraction, exponent⟩ := by
  have hempty : (whole.isEmpty && fraction.isEmpty) = true ↔ whole = [] ∧ fraction = [] := by
    simp
  unfold numeralOfParts?
  by_cases hnone : whole = [] ∧ fraction = []
  · simp [hnone]
  · rw [if_neg (mt hempty.mp hnone)]
    constructor
    · intro h
      split at h
      · rename_i exponent hscan
        obtain ⟨part, hpart, hform⟩ := exists_exponent_of_scanExponent? hscan
        rw [List.append_nil] at hpart
        exact ⟨hnone, exponent, hpart ▸ hform, (Option.some.inj h).symm⟩
      · cases h
    · intro h
      obtain ⟨-, exponent, hform, rfl⟩ := h
      have hscan := scanExponent?_of_form hform endsNumeral_nil
      rw [List.append_nil] at hscan
      rw [hscan]

/-- With a point in it a text has the digits on both sides for its parts. -/
theorem readNumeral?_of_point {text rest after : List Char} {whole fraction : List Digit}
    (negative : Bool) (hwhole : spanDigits text = (whole, '.' :: rest))
    (hfraction : spanDigits rest = (fraction, after)) :
    readNumeral? negative text = numeralOfParts? negative whole fraction after := by
  simp only [readNumeral?, hwhole, hfraction]
  rfl

/-- Without one the digits in front are all there are. -/
theorem readNumeral?_of_no_point {text rest : List Char} {whole : List Digit} (negative : Bool)
    (hwhole : spanDigits text = (whole, rest)) (hpoint : ∀ c ∈ rest.head?, c ≠ '.') :
    readNumeral? negative text = numeralOfParts? negative whole [] rest := by
  rw [readNumeral?, hwhole]
  dsimp only
  split
  · exact absurd rfl (hpoint '.' rfl)
  · rfl

/-- Digits on one side of a point at least are a mantissa. -/
theorem mantissaForm_point {whole fraction : List Digit} (h : ¬ (whole = [] ∧ fraction = [])) :
    MantissaForm PlainDigits (digitText whole ++ '.' :: digitText fraction) whole fraction := by
  by_cases hwhole : whole = []
  · subst hwhole
    exact .fraction ⟨fun hfraction => h ⟨rfl, hfraction⟩, rfl⟩
  · by_cases hfraction : fraction = []
    · subst hfraction
      exact .point ⟨hwhole, rfl⟩
    · exact .both ⟨hwhole, rfl⟩ ⟨hfraction, rfl⟩

/-- A numeral that is read is a mantissa and an exponent. -/
theorem exists_form_of_readNumeral? {negative : Bool} {text : List Char} {n : Numeral}
    (h : readNumeral? negative text = some n) : ∃ mantissa part whole fraction exponent,
      text = mantissa ++ part ∧ MantissaForm PlainDigits mantissa whole fraction ∧
        ExponentForm PlainDigits part exponent ∧
        n = ⟨negative, valueOf whole, fraction, exponent⟩ := by
  cases hwhole : spanDigits text with
  | mk whole rest =>
      obtain ⟨rfl, -⟩ := spanDigits_eq_iff.mp hwhole
      by_cases hpoint : ∃ after, rest = '.' :: after
      · obtain ⟨after, rfl⟩ := hpoint
        cases hfraction : spanDigits after with
        | mk fraction tail =>
            obtain ⟨rfl, -⟩ := spanDigits_eq_iff.mp hfraction
            rw [readNumeral?_of_point negative hwhole hfraction] at h
            obtain ⟨hsome, exponent, hform, rfl⟩ := numeralOfParts?_eq_some_iff.mp h
            exact ⟨_, tail, whole, fraction, exponent, by simp, mantissaForm_point hsome, hform,
              rfl⟩
      · have hno : ∀ c ∈ rest.head?, c ≠ '.' := by
          intro c hc hdot
          cases rest with
          | nil => cases hc
          | cons d after =>
              rw [← Option.some.inj hc] at hdot
              exact hpoint ⟨after, by rw [hdot]⟩
        rw [readNumeral?_of_no_point negative hwhole hno] at h
        obtain ⟨hsome, exponent, hform, rfl⟩ := numeralOfParts?_eq_some_iff.mp h
        have hne : whole ≠ [] := fun hnil => hsome ⟨hnil, rfl⟩
        exact ⟨_, rest, whole, [], exponent, rfl, .whole ⟨hne, rfl⟩, hform, rfl⟩

/-- A mantissa has a digit. -/
theorem MantissaForm.ne_nil {mantissa : List Char} {whole fraction : List Digit}
    (h : MantissaForm PlainDigits mantissa whole fraction) : ¬ (whole = [] ∧ fraction = []) := by
  cases h with
  | whole hrun => exact fun hnil => hrun.1 hnil.1
  | point hrun => exact fun hnil => hrun.1 hnil.1
  | fraction hrun => exact fun hnil => hrun.1 hnil.2
  | both hrun _ => exact fun hnil => hrun.1 hnil.1

/-- The digits of a mantissa are read off it, up to the exponent. -/
theorem readNumeral?_of_mantissa {mantissa part : List Char} {whole fraction : List Digit}
    {exponent : Option Int} (negative : Bool)
    (h : MantissaForm PlainDigits mantissa whole fraction)
    (hpart : ExponentForm PlainDigits part exponent) :
    readNumeral? negative (mantissa ++ part) = numeralOfParts? negative whole fraction part := by
  have hend := hpart.endsDigits
  have hdot (rest : List Char) : EndsDigits ('.' :: rest) := endsDigits_cons (by decide) rest
  cases h with
  | whole hrun =>
      obtain ⟨-, rfl⟩ := hrun
      have hno : ∀ c ∈ part.head?, c ≠ '.' := by
        intro c hc
        rcases hpart.head c hc with rfl | rfl <;> decide
      exact readNumeral?_of_no_point negative (spanDigits_append _ hend) hno
  | point hrun =>
      obtain ⟨-, rfl⟩ := hrun
      rw [List.append_assoc, List.singleton_append]
      exact readNumeral?_of_point negative (spanDigits_append _ (hdot part))
        (spanDigits_append [] hend)
  | fraction hrun =>
      obtain ⟨-, rfl⟩ := hrun
      have hnone : spanDigits ('.' :: (digitText fraction ++ part)) =
          ([], '.' :: (digitText fraction ++ part)) := spanDigits_append [] (hdot _)
      exact readNumeral?_of_point negative hnone (spanDigits_append _ hend)
  | both hrun hrun' =>
      obtain ⟨-, rfl⟩ := hrun
      obtain ⟨-, rfl⟩ := hrun'
      rw [List.append_assoc, List.cons_append]
      exact readNumeral?_of_point negative (spanDigits_append _ (hdot _))
        (spanDigits_append _ hend)

/-- **Numerals are read in all their forms.** -/
theorem readNumeral?_of_form {mantissa part : List Char} {whole fraction : List Digit}
    {exponent : Option Int} (negative : Bool)
    (h : MantissaForm PlainDigits mantissa whole fraction)
    (hpart : ExponentForm PlainDigits part exponent) :
    readNumeral? negative (mantissa ++ part) =
      some ⟨negative, valueOf whole, fraction, exponent⟩ := by
  rw [readNumeral?_of_mantissa negative h hpart]
  exact numeralOfParts?_eq_some_iff.mpr ⟨h.ne_nil, exponent, hpart, rfl⟩

/-! ## Literals without underscores -/

/-- A mantissa starts with a digit or with a point. -/
theorem MantissaForm.head {mantissa : List Char} {whole fraction : List Digit}
    (h : MantissaForm PlainDigits mantissa whole fraction) (part : List Char) :
    ∃ c rest, mantissa ++ part = c :: rest ∧ c ≠ '-' ∧ c ≠ '+' ∧ ¬ IsSmall c.toLower := by
  have hdigit {text : List Char} {digits : List Digit} (hrun : PlainDigits text digits)
      (rest : List Char) :
      ∃ c after, text ++ rest = c :: after ∧ c ≠ '-' ∧ c ≠ '+' ∧ ¬ IsSmall c.toLower := by
    obtain ⟨hne, rfl⟩ := hrun
    obtain ⟨d, digits, rfl⟩ := List.exists_cons_of_ne_nil hne
    obtain ⟨hminus, hplus⟩ := toChar_ne_sign d
    exact ⟨d.toChar, digitText digits ++ rest, rfl, hminus, hplus, not_isSmall_toChar d⟩
  cases h with
  | whole hrun => exact hdigit hrun part
  | point hrun =>
      rw [List.append_assoc]
      exact hdigit hrun _
  | fraction hrun => exact ⟨'.', _, rfl, by decide, by decide, by decide⟩
  | both hrun hrun' =>
      rw [List.append_assoc]
      exact hdigit hrun _

/-- A word has no sign at its front, and is no empty text. -/
theorem AnyCase.ne_sign {word text : List Char} (hword : word ∈ numberWords)
    (h : AnyCase word text) : ∀ c ∈ text.head?, c ≠ '-' ∧ c ≠ '+' := by
  intro c hc
  have hmem : c ∈ text := List.mem_of_mem_head? hc
  constructor
  · rintro rfl
    exact not_mem_of_anyCase hword h (by decide) hmem
  · rintro rfl
    exact not_mem_of_anyCase hword h (by decide) hmem

/-- What stands behind the sign of a literal is a word or a numeral. -/
theorem readPlainLiteral?_of_splitSign {text body : List Char} {negative : Bool}
    (h : splitSign text = (negative, body)) :
    readPlainLiteral? text =
      if body.map Char.toLower = "nan".toList then some .nan
      else if body.map Char.toLower = "inf".toList ∨
          body.map Char.toLower = "infinity".toList then some (.infinity negative)
      else (readNumeral? negative body).map Numeral.toBinary64 := by
  rw [readPlainLiteral?, h]

/-- A literal that is read has one of the forms. -/
theorem literalForm_of_readPlainLiteral? {text : List Char} {x : Binary64}
    (h : readPlainLiteral? text = some x) : LiteralForm PlainDigits text x := by
  cases hsplit : splitSign text with
  | mk negative body =>
      rw [readPlainLiteral?_of_splitSign hsplit] at h
      obtain ⟨sign, rfl, hsign⟩ := exists_sign_of_splitSign hsplit
      split at h
      · rename_i hword
        exact Option.some.inj h ▸ .nan hsign ((map_toLower_eq_numberWord_iff (by decide)).mp hword)
      · split at h
        · rename_i hword
          exact Option.some.inj h ▸ .infinity hsign
            (hword.imp (map_toLower_eq_numberWord_iff (by decide)).mp
              (map_toLower_eq_numberWord_iff (by decide)).mp)
        · obtain ⟨n, hn, rfl⟩ := Option.map_eq_some_iff.mp h
          obtain ⟨mantissa, part, whole, fraction, exponent, rfl, hmantissa, hpart, rfl⟩ :=
            exists_form_of_readNumeral? hn
          exact .numeral hsign hmantissa hpart

/-- The word for infinity is read behind a sign, in its short form and in its long one. -/
theorem readPlainLiteral?_infinity {sign word : List Char} {negative : Bool}
    (hsign : SignForm sign negative)
    (hword : AnyCase "inf".toList word ∨ AnyCase "infinity".toList word) :
    readPlainLiteral? (sign ++ word) = some (.infinity negative) := by
  have hhead := hword.elim (AnyCase.ne_sign (by decide)) (AnyCase.ne_sign (by decide))
  have hlower := hword.imp (map_toLower_eq_numberWord_iff (by decide)).mpr
    (map_toLower_eq_numberWord_iff (by decide)).mpr
  have hnan : word.map Char.toLower ≠ "nan".toList := by
    rcases hlower with h | h
    · rw [h]
      decide
    · rw [h]
      decide
  rw [readPlainLiteral?_of_splitSign (splitSign_append hsign hhead), if_neg hnan, if_pos hlower]

/-- A numeral is read behind a sign, for it is none of the words. -/
theorem readPlainLiteral?_numeral {sign mantissa part : List Char} {negative : Bool}
    {whole fraction : List Digit} {exponent : Option Int} (hsign : SignForm sign negative)
    (hmantissa : MantissaForm PlainDigits mantissa whole fraction)
    (hpart : ExponentForm PlainDigits part exponent) :
    readPlainLiteral? (sign ++ (mantissa ++ part)) =
      some (Numeral.toBinary64 ⟨negative, valueOf whole, fraction, exponent⟩) := by
  obtain ⟨c, rest, hbody, hminus, hplus, hc⟩ := hmantissa.head part
  have hhead : ∀ d ∈ (mantissa ++ part).head?, d ≠ '-' ∧ d ≠ '+' := by
    intro d hd
    rw [hbody] at hd
    exact Option.some.inj hd ▸ ⟨hminus, hplus⟩
  have hno {word : List Char} (hword : word ∈ numberWords) :
      (mantissa ++ part).map Char.toLower ≠ word := by
    intro h
    have hcase := (map_toLower_eq_numberWord_iff hword).mp h
    exact not_mem_of_anyCase hword hcase hc (by simp [hbody])
  rw [readPlainLiteral?_of_splitSign (splitSign_append hsign hhead), if_neg (hno (by decide)),
    if_neg (not_or.mpr ⟨hno (by decide), hno (by decide)⟩),
    readNumeral?_of_form negative hmantissa hpart, Option.map_some]

/-- **Literals without underscores are read in all their forms,** and as nothing else. -/
theorem readPlainLiteral?_eq_some_iff {text : List Char} {x : Binary64} :
    readPlainLiteral? text = some x ↔ LiteralForm PlainDigits text x := by
  refine ⟨literalForm_of_readPlainLiteral?, ?_⟩
  intro h
  cases h with
  | nan hsign hword =>
      have hhead := hword.ne_sign (by decide)
      rw [readPlainLiteral?_of_splitSign (splitSign_append hsign hhead),
        if_pos ((map_toLower_eq_numberWord_iff (by decide)).mpr hword)]
  | infinity hsign hword => exact readPlainLiteral?_infinity hsign hword
  | numeral hsign hmantissa hpart => exact readPlainLiteral?_numeral hsign hmantissa hpart

/-! ## Numerals as they are written -/

/-- A written numeral is a literal. -/
theorem Numeral.literalForm_text (width : Nat) (n : Numeral) :
    LiteralForm PlainDigits (n.text width) n.toBinary64 := by
  have hwhole : PlainDigits (naturalText n.whole) (digitsOf n.whole) :=
    ⟨digitsOf_ne_nil n.whole, rfl⟩
  have hmantissa : MantissaForm PlainDigits (naturalText n.whole ++ fractionText n.fraction)
      (digitsOf n.whole) n.fraction := by
    cases n.fraction with
    | nil =>
        rw [fractionText_nil, List.append_nil]
        exact .whole hwhole
    | cons d digits => exact .both hwhole ⟨List.cons_ne_nil d digits, rfl⟩
  have hform := LiteralForm.numeral (signForm_text n.negative) hmantissa
    (exponentForm_text width n.exponent)
  rwa [valueOf_digitsOf, List.append_assoc, ← body, ← text_eq] at hform

/-- **A written numeral is read as a literal,** and stands for what it says. -/
theorem readLiteral?_text (width : Nat) (n : Numeral) :
    readLiteral? (String.ofList (n.text width)) = some n.toBinary64 := by
  rw [readLiteral?_of_not_mem (n.not_mem_text width (by decide) (by decide))]
  exact readPlainLiteral?_eq_some_iff.mpr (n.literalForm_text width)

end RuleEngine
