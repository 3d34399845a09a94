import Mathlib.Data.List.Chain
import RuleEngine.Proofs.NumberForms
import RuleEngine.Proofs.StringForms

/-!
# The pieces of JSON text

JSON text is a sequence of pieces, each the text of a token, with blanks between them or
none.  Punctuation and the three words are written in one way only, and strings in many.  A
number has a form that is stricter than that of literals: no sign but a minus, no zero
before other digits, and digits on either side of a point.

The scanner takes the pieces off one by one.  It goes wrong nowhere but between two
pieces that could be one, and of these only numbers can go on; so what it needs is that no
two values stand side by side.

* `NumberForm` — numbers;
* `Lexeme`, `Spelled` — the pieces of the tokens, and a text made of pieces;
* `exists_number_of_scanNumeral?`, `scanNumeral?_of_form` — numbers are scanned in all their
  forms;
* `spelled_of_tokensOf?`, `tokensOf?_of_spelled` — a text that is scanned is made of
  pieces, and it is scanned where it is;
* `HasLoneSurrogate` — a piece is a string that denotes no text.
-/

namespace RuleEngine

/-! ## Numbers -/

/-- The whole part of a number: zero alone, or digits that do not start with zero. -/
inductive WholeForm : List Char → Nat → Prop
  | zero : WholeForm ['0'] 0
  | digits {d : Digit} {digits : List Digit} (hd : d ≠ 0) :
      WholeForm (digitText (d :: digits)) (valueOf (d :: digits))

/-- No fraction, or a point with digits behind it. -/
inductive FractionForm : List Char → List Digit → Prop
  | none : FractionForm [] []
  | some {text : List Char} {digits : List Digit} (h : PlainDigits text digits) :
      FractionForm ('.' :: text) digits

/-- A number, and the numeral that it is. -/
inductive NumberForm : List Char → Numeral → Prop
  | positive {w f e : List Char} {whole : Nat} {fraction : List Digit} {exponent : Option Int}
      (hw : WholeForm w whole) (hf : FractionForm f fraction)
      (he : ExponentForm PlainDigits e exponent) :
      NumberForm (w ++ (f ++ e)) ⟨false, whole, fraction, exponent⟩
  | negative {w f e : List Char} {whole : Nat} {fraction : List Digit} {exponent : Option Int}
      (hw : WholeForm w whole) (hf : FractionForm f fraction)
      (he : ExponentForm PlainDigits e exponent) :
      NumberForm ('-' :: (w ++ (f ++ e))) ⟨true, whole, fraction, exponent⟩

/-- A whole part is taken off the front of a text. -/
theorem exists_whole_of_scanWhole? {text after : List Char} {n : Nat}
    (h : scanWhole? text = some (n, after)) : ∃ w, text = w ++ after ∧ WholeForm w n := by
  unfold scanWhole? at h
  split at h
  · obtain ⟨rfl, rfl⟩ := Prod.mk.inj (Option.some.inj h)
    exact ⟨['0'], rfl, .zero⟩
  · rename_i hzero
    cases hspan : spanDigits text with
    | mk digits rest =>
        obtain ⟨rfl, -⟩ := spanDigits_eq_iff.mp hspan
        simp only [hspan] at h
        split at h
        · cases h
        · rename_i hsome
          obtain ⟨rfl, rfl⟩ := Prod.mk.inj (Option.some.inj h)
          cases digits with
          | nil => exact absurd rfl hsome
          | cons d digits =>
              have hd : d ≠ 0 := by
                rintro rfl
                exact hzero _ rfl
              exact ⟨_, rfl, .digits hd⟩

/-- A whole part is read as it was written, up to what is no digit. -/
theorem scanWhole?_of_form {w rest : List Char} {n : Nat} (h : WholeForm w n)
    (hrest : EndsDigits rest) : scanWhole? (w ++ rest) = some (n, rest) := by
  cases h with
  | zero => rfl
  | @digits d digits hd =>
      have hfirst : ∀ after, digitText (d :: digits) ++ rest ≠ '0' :: after := by
        intro after h
        have hread := congrArg digitOfChar? (List.cons.inj h).1
        rw [digitOfChar?_toChar] at hread
        exact hd (Option.some.inj hread)
      rw [scanWhole?.eq_2 _ hfirst, spanDigits_append _ hrest]
      rfl

/-- A fraction, or none, is taken off the front of a text. -/
theorem exists_fraction_of_scanFraction? {text after : List Char} {fraction : List Digit}
    (h : scanFraction? text = some (fraction, after)) :
    ∃ f, text = f ++ after ∧ FractionForm f fraction := by
  unfold scanFraction? at h
  split at h
  · rename_i rest
    cases hspan : spanDigits rest with
    | mk digits tail =>
        obtain ⟨rfl, -⟩ := spanDigits_eq_iff.mp hspan
        simp only [hspan] at h
        split at h
        · cases h
        · rename_i hsome
          obtain ⟨rfl, rfl⟩ := Prod.mk.inj (Option.some.inj h)
          exact ⟨_, rfl, .some ⟨by simpa using hsome, rfl⟩⟩
  · obtain ⟨rfl, rfl⟩ := Prod.mk.inj (Option.some.inj h)
    exact ⟨[], rfl, .none⟩

/-- A fraction is read as it was written, and where there is none no point follows. -/
theorem scanFraction?_of_form {f rest : List Char} {fraction : List Digit}
    (h : FractionForm f fraction) (hrest : EndsDigits rest) (hpoint : ∀ c ∈ rest.head?, c ≠ '.') :
    scanFraction? (f ++ rest) = some (fraction, rest) := by
  cases h with
  | none =>
      refine scanFraction?.eq_2 rest ?_
      intro after h
      exact hpoint '.' (by rw [h]; rfl) rfl
  | some hrun =>
      obtain ⟨hne, rfl⟩ := hrun
      have hsome : fraction.isEmpty = false := by simpa using hne
      rw [List.cons_append, scanFraction?, spanDigits_append _ hrest]
      simp [hsome]

/-- Numbers that are taken apart are put together. -/
theorem exists_parts {body afterWhole afterFraction after : List Char} {whole : Nat}
    {fraction : List Digit} {exponent : Option Int}
    (hw : scanWhole? body = some (whole, afterWhole))
    (hf : scanFraction? afterWhole = some (fraction, afterFraction))
    (he : scanExponent? afterFraction = some (exponent, after)) :
    ∃ w f e, body = w ++ (f ++ e) ++ after ∧ WholeForm w whole ∧ FractionForm f fraction ∧
      ExponentForm PlainDigits e exponent := by
  obtain ⟨w, rfl, hwhole⟩ := exists_whole_of_scanWhole? hw
  obtain ⟨f, rfl, hfraction⟩ := exists_fraction_of_scanFraction? hf
  obtain ⟨e, rfl, hexponent⟩ := exists_exponent_of_scanExponent? he
  exact ⟨w, f, e, by simp, hwhole, hfraction, hexponent⟩

/-- A number is taken off the front of a text. -/
theorem exists_number_of_scanNumeral? {text after : List Char} {n : Numeral}
    (h : scanNumeral? text = some (n, after)) :
    ∃ lexeme, text = lexeme ++ after ∧ NumberForm lexeme n := by
  by_cases hminus : ∃ body, text = '-' :: body
  · obtain ⟨body, rfl⟩ := hminus
    rw [scanNumeral?.eq_1] at h
    split at h
    · cases h
    · split at h
      · cases h
      · split at h
        · cases h
        · rename_i hw _ _ _ hf _ _ _ he
          obtain ⟨rfl, rfl⟩ := Prod.mk.inj (Option.some.inj h)
          obtain ⟨w, f, e, rfl, hw, hf, he⟩ := exists_parts hw hf he
          exact ⟨_, rfl, .negative hw hf he⟩
  · rw [scanNumeral?.eq_2 text fun body hbody => hminus ⟨body, hbody⟩] at h
    split at h
    · cases h
    · split at h
      · cases h
      · split at h
        · cases h
        · rename_i hw _ _ _ hf _ _ _ he
          obtain ⟨rfl, rfl⟩ := Prod.mk.inj (Option.some.inj h)
          obtain ⟨w, f, e, rfl, hw, hf, he⟩ := exists_parts hw hf he
          exact ⟨_, rfl, .positive hw hf he⟩

theorem endsDigits_append {front rest : List Char} (hfront : EndsDigits front)
    (hrest : EndsDigits rest) : EndsDigits (front ++ rest) := by
  cases front with
  | nil => exact hrest
  | cons c front => exact endsDigits_cons (hfront c rfl) _

/-- A whole part starts with a digit. -/
theorem WholeForm.exists_digit {w : List Char} {n : Nat} (h : WholeForm w n) :
    ∃ (d : Digit) (rest : List Char), w = d.toChar :: rest := by
  cases h with
  | zero => exact ⟨0, [], rfl⟩
  | @digits d digits hd => exact ⟨d, digitText digits, rfl⟩

/-- The parts of a number are taken apart where they were put together. -/
theorem scan_parts {w f e rest : List Char} {whole : Nat} {fraction : List Digit}
    {exponent : Option Int} (hw : WholeForm w whole) (hf : FractionForm f fraction)
    (he : ExponentForm PlainDigits e exponent) (hrest : EndsNumeral rest) :
    scanWhole? (w ++ (f ++ (e ++ rest))) = some (whole, f ++ (e ++ rest)) ∧
      scanFraction? (f ++ (e ++ rest)) = some (fraction, e ++ rest) ∧
      scanExponent? (e ++ rest) = some (exponent, rest) := by
  have hend : EndsDigits (e ++ rest) := endsDigits_append he.endsDigits hrest.digits
  have hpoint : ∀ c ∈ (e ++ rest).head?, c ≠ '.' := by
    intro c hc
    cases e with
    | nil => exact hrest.point c hc
    | cons d e => rcases he.head c hc with rfl | rfl <;> decide
  have hfraction : EndsDigits (f ++ (e ++ rest)) := by
    cases hf with
    | none => exact hend
    | some _ => exact endsDigits_cons (by decide) _
  exact ⟨scanWhole?_of_form hw hfraction, scanFraction?_of_form hf hend hpoint,
    scanExponent?_of_form he hrest⟩

/-- **Numbers are scanned in all their forms,** up to what does not belong to them. -/
theorem scanNumeral?_of_form {lexeme rest : List Char} {n : Numeral} (h : NumberForm lexeme n)
    (hrest : EndsNumeral rest) : scanNumeral? (lexeme ++ rest) = some (n, rest) := by
  cases h with
  | @positive w f e whole fraction exponent hw hf he =>
      obtain ⟨hwhole, hfraction, hexponent⟩ := scan_parts hw hf he hrest
      have hminus : ∀ body, w ++ (f ++ (e ++ rest)) ≠ '-' :: body := by
        obtain ⟨d, tail, rfl⟩ := hw.exists_digit
        intro body h
        exact (toChar_ne_sign d).1 (List.cons.inj h).1
      rw [List.append_assoc, List.append_assoc, scanNumeral?.eq_2 _ hminus]
      simp only [hwhole, hfraction, hexponent]
  | @negative w f e whole fraction exponent hw hf he =>
      obtain ⟨hwhole, hfraction, hexponent⟩ := scan_parts hw hf he hrest
      rw [List.cons_append, List.append_assoc, List.append_assoc, scanNumeral?.eq_1]
      simp only [hwhole, hfraction, hexponent]

/-- A written numeral is a number. -/
theorem Numeral.numberForm_text (width : Nat) (n : Numeral) : NumberForm (n.text width) n := by
  have hwhole : WholeForm (naturalText n.whole) n.whole := by
    obtain ⟨d, digits, hdigits⟩ := List.exists_cons_of_ne_nil (digitsOf_ne_nil n.whole)
    by_cases hd : d = 0
    · -- no number but zero starts with the digit zero
      obtain ⟨hzero, rfl⟩ := digitsOf_cons_zero (hd ▸ hdigits)
      have htext : naturalText n.whole = ['0'] := by
        rw [naturalText, hdigits, hd]
        rfl
      rw [htext, hzero]
      exact .zero
    · have hform : WholeForm (digitText (d :: digits)) (valueOf (d :: digits)) := .digits hd
      rwa [← hdigits, valueOf_digitsOf] at hform
  have hfraction : FractionForm (fractionText n.fraction) n.fraction := by
    cases n.fraction with
    | nil => exact .none
    | cons d digits => exact .some ⟨List.cons_ne_nil d digits, rfl⟩
  have hexponent := exponentForm_text width n.exponent
  rw [text_eq, body]
  obtain ⟨negative, whole, fraction, exponent⟩ := n
  cases negative with
  | true =>
      have hform := NumberForm.negative hwhole hfraction hexponent
      exact hform
  | false =>
      have hform := NumberForm.positive hwhole hfraction hexponent
      exact hform

/-! ## Tokens -/

/-- A token that is a value by itself. -/
def Token.isScalar : Token → Bool
  | scalar _ => true
  | _ => false

/-- The piece of a text that a token is.  A string whose codes denote no text has none for
its content. -/
inductive Lexeme : Token → List Char → Prop
  | null : Lexeme (.scalar .null) "null".toList
  | true : Lexeme (.scalar (.bool true)) "true".toList
  | false : Lexeme (.scalar (.bool false)) "false".toList
  | number {lexeme : List Char} {n : Numeral} (h : NumberForm lexeme n) :
      Lexeme (.scalar (.number n)) lexeme
  | text {body : List Char} {codes : List Nat} {s : String} (h : StringForm body codes)
      (hs : Denotes codes s.toList) :
      Lexeme (.scalar (.string (some s))) ('"' :: (body ++ ['"']))
  | noText {body : List Char} {codes : List Nat} (h : StringForm body codes)
      (hnone : ∀ text, ¬ Denotes codes text) :
      Lexeme (.scalar (.string none)) ('"' :: (body ++ ['"']))
  | openArray : Lexeme .openArray ['[']
  | closeArray : Lexeme .closeArray [']']
  | openObject : Lexeme .openObject ['\x7b']
  | closeObject : Lexeme .closeObject ['\x7d']
  | comma : Lexeme .comma [',']
  | colon : Lexeme .colon [':']

/-- A text that is made of the pieces of tokens, in this order, with blanks before each of
them and at the end, or none. -/
inductive Spelled : List Token → List Char → Prop
  | nil {gap : List Char} (hgap : ∀ c ∈ gap, isJsonBlank c = true) : Spelled [] gap
  | cons {token : Token} {tokens : List Token} {gap lexeme rest : List Char}
      (hgap : ∀ c ∈ gap, isJsonBlank c = true) (hlexeme : Lexeme token lexeme)
      (hrest : Spelled tokens rest) : Spelled (token :: tokens) (gap ++ (lexeme ++ rest))

/-- A word is taken off the front of a text. -/
theorem exists_lexeme_of_scanWord? {text after : List Char} {word : Scalar}
    (h : scanWord? text = some (word, after)) :
    ∃ lexeme, text = lexeme ++ after ∧ Lexeme (.scalar word) lexeme := by
  unfold scanWord? at h
  split at h
  · obtain ⟨rfl, rfl⟩ := Prod.mk.inj (Option.some.inj h)
    exact ⟨_, rfl, .null⟩
  · obtain ⟨rfl, rfl⟩ := Prod.mk.inj (Option.some.inj h)
    exact ⟨_, rfl, .true⟩
  · obtain ⟨rfl, rfl⟩ := Prod.mk.inj (Option.some.inj h)
    exact ⟨_, rfl, .false⟩
  · cases h

/-- A piece is taken off the front of a text. -/
theorem exists_lexeme_of_scanToken? {c : Char} {rest after : List Char} {token : Token}
    (h : scanToken? c rest = some (token, after)) :
    ∃ lexeme, c :: rest = lexeme ++ after ∧ Lexeme token lexeme := by
  unfold scanToken? at h
  split at h
  · rename_i token' hpunctuation
    obtain ⟨rfl, rfl⟩ := Prod.mk.inj (Option.some.inj h)
    refine ⟨[c], rfl, ?_⟩
    unfold punctuation? at hpunctuation
    split_ifs at hpunctuation
    all_goals
      subst_vars
      cases hpunctuation
      constructor
  · split_ifs at h with hquote hnumber
    · subst hquote
      obtain ⟨⟨units, tail⟩, hscan, heq⟩ := Option.map_eq_some_iff.mp h
      obtain ⟨rfl, rfl⟩ := Prod.mk.inj heq
      obtain ⟨body, codes, rfl, hform, rfl⟩ := exists_string_of_scanString? hscan
      refine ⟨'"' :: (body ++ ['"']), by simp, ?_⟩
      have hiff (text : List Char) : textOfUnits? units = some text ↔ Denotes units text :=
        textOfUnits?_eq_some_iff hform.lt
      cases htext : textOfUnits? units with
      | none => exact .noText hform fun text hdenotes => by simp [(hiff text).mpr hdenotes] at htext
      | some text => exact .text hform (by simpa using (hiff text).mp htext)
    · obtain ⟨⟨n, tail⟩, hscan, heq⟩ := Option.map_eq_some_iff.mp h
      obtain ⟨rfl, rfl⟩ := Prod.mk.inj heq
      obtain ⟨lexeme, hlexeme, hform⟩ := exists_number_of_scanNumeral? hscan
      exact ⟨lexeme, hlexeme, .number hform⟩
    · obtain ⟨⟨word, tail⟩, hscan, heq⟩ := Option.map_eq_some_iff.mp h
      obtain ⟨rfl, rfl⟩ := Prod.mk.inj heq
      obtain ⟨lexeme, hlexeme, hform⟩ := exists_lexeme_of_scanWord? hscan
      exact ⟨lexeme, hlexeme, hform⟩

/-- What a number starts with is not what any other piece starts with. -/
theorem NumberForm.head {lexeme : List Char} {n : Numeral} (h : NumberForm lexeme n) :
    ∃ c letters, lexeme = c :: letters ∧ isJsonBlank c = false ∧ punctuation? c = none ∧
      c ≠ '"' ∧ (c = '-' ∨ isDigitChar c = true) := by
  have hdigit (d : Digit) : isJsonBlank d.toChar = false ∧ punctuation? d.toChar = none ∧
      d.toChar ≠ '"' ∧ (d.toChar = '-' ∨ isDigitChar d.toChar = true) := by
    revert d
    decide
  cases h with
  | positive hw _ _ =>
      obtain ⟨d, rest, rfl⟩ := hw.exists_digit
      exact ⟨d.toChar, _, rfl, hdigit d⟩
  | negative _ _ _ => exact ⟨'-', _, rfl, by decide, by decide, by decide, .inl rfl⟩

/-- **Pieces are scanned off a text,** numbers where nothing behind them goes on with
them. -/
theorem scanToken?_of_lexeme {token : Token} {lexeme rest : List Char} (h : Lexeme token lexeme)
    (hrest : token.isScalar = true → EndsNumeral rest) :
    ∃ c letters, lexeme = c :: letters ∧ isJsonBlank c = false ∧
      scanToken? c (letters ++ rest) = some (token, rest) := by
  have hstring {body : List Char} {codes : List Nat} (hform : StringForm body codes) :
      scanToken? '"' (body ++ ['"'] ++ rest) =
        some (.scalar (.string ((textOfUnits? codes).map String.ofList)), rest) := by
    have hnot : punctuation? '"' = none := by decide
    have hscan : scanString? [] (body ++ '"' :: rest) = some (codes, rest) :=
      scanString?_of_form hform [] rest
    rw [scanToken?, hnot, List.append_assoc, List.singleton_append]
    dsimp only
    rw [if_pos rfl, hscan, Option.map_some]
  cases h with
  | number hform =>
      obtain ⟨c, letters, hlexeme, hblank, hnot, hquote, hnumber⟩ := hform.head
      refine ⟨c, letters, hlexeme, hblank, ?_⟩
      have hscan := scanNumeral?_of_form hform (hrest rfl)
      rw [hlexeme, List.cons_append] at hscan
      rw [scanToken?, hnot]
      dsimp only
      rw [if_neg hquote, if_pos hnumber, hscan, Option.map_some]
  | @text body codes s hform hs =>
      refine ⟨'"', _, rfl, by decide, ?_⟩
      rw [hstring hform, textOfUnits?_of_denotes hs, Option.map_some,
        String.ofList_toList]
  | @noText body codes hform hnone =>
      refine ⟨'"', _, rfl, by decide, ?_⟩
      have htext : textOfUnits? codes = none := by
        rw [Option.eq_none_iff_forall_ne_some]
        exact fun text h => hnone text (denotes_of_textOfUnits? hform.lt h)
      rw [hstring hform, htext, Option.map_none]
  | null | true | false => exact ⟨_, _, rfl, by decide, rfl⟩
  | openArray | closeArray | openObject | closeObject | comma | colon =>
      exact ⟨_, [], rfl, by decide, rfl⟩

/-! ## Texts -/

/-- A blank may stand in front of the text of some tokens. -/
theorem Spelled.cons_blank {tokens : List Token} {c : Char} {text : List Char}
    (hc : isJsonBlank c = true) (h : Spelled tokens text) : Spelled tokens (c :: text) := by
  cases h with
  | nil hgap => exact .nil (List.forall_mem_cons.mpr ⟨hc, hgap⟩)
  | @cons token tokens gap lexeme rest hgap hlexeme hrest =>
      have hgap' : ∀ d ∈ c :: gap, isJsonBlank d = true := List.forall_mem_cons.mpr ⟨hc, hgap⟩
      exact Spelled.cons hgap' hlexeme hrest

/-- What is scanned is made of the pieces of the tokens found. -/
theorem exists_spelled_of_tokensFrom? {read tokens : List Token} {text : List Char}
    (h : tokensFrom? read text = some tokens) :
    ∃ more, tokens = read.reverse ++ more ∧ Spelled more text := by
  fun_induction tokensFrom? read text with
  | case1 read => exact ⟨[], by simpa using h.symm, .nil (by simp)⟩
  | case2 read c rest hblank ih =>
      obtain ⟨more, htokens, hmore⟩ := ih h
      exact ⟨more, htokens, hmore.cons_blank hblank⟩
  | case3 => cases h
  | case4 read c rest hblank token after hscan ih =>
      obtain ⟨more, rfl, hmore⟩ := ih h
      obtain ⟨lexeme, htext, hlexeme⟩ := exists_lexeme_of_scanToken? hscan
      refine ⟨token :: more, by simp, ?_⟩
      rw [htext]
      have hgap : ∀ c ∈ ([] : List Char), isJsonBlank c = true := nofun
      exact Spelled.cons hgap hlexeme hmore

/-- **A text that is scanned is made of pieces.** -/
theorem spelled_of_tokensOf? {text : String} {tokens : List Token}
    (h : tokensOf? text = some tokens) : Spelled tokens text.toList := by
  obtain ⟨more, rfl, hmore⟩ := exists_spelled_of_tokensFrom? h
  exact hmore

/-- No two values stand side by side. -/
def Separated (tokens : List Token) : Prop :=
  tokens.IsChain fun t u => t.isScalar = true → u.isScalar = false

/-- A number ends where a blank or punctuation follows it, or nothing. -/
theorem Spelled.endsNumeral {tokens : List Token} {text : List Char} (h : Spelled tokens text)
    (hfirst : ∀ t ∈ tokens.head?, t.isScalar = false) : EndsNumeral text := by
  have hcons {c : Char} (hdigit : digitOfChar? c = none) (hc : c ≠ '.' ∧ c ≠ 'e' ∧ c ≠ 'E')
      (rest : List Char) : EndsNumeral (c :: rest) := by
    refine ⟨endsDigits_cons hdigit rest, ?_, ?_⟩
    · intro d hd
      exact Option.some.inj hd ▸ hc.1
    · intro d hd
      exact Option.some.inj hd ▸ hc.2
  have hblank {c : Char} (h : isJsonBlank c = true) (rest : List Char) :
      EndsNumeral (c :: rest) := by
    simp only [isJsonBlank, Bool.or_eq_true, decide_eq_true_eq] at h
    rcases h with ((rfl | rfl) | rfl) | rfl <;> exact hcons (by decide) (by decide) rest
  cases h with
  | nil hgap =>
      cases text with
      | nil => exact endsNumeral_nil
      | cons c text => exact hblank (hgap c List.mem_cons_self) text
  | @cons token tokens gap lexeme rest hgap hlexeme hrest =>
      cases gap with
      | cons c gap => exact hblank (hgap c List.mem_cons_self) _
      | nil =>
          have htoken := hfirst token rfl
          cases hlexeme with
          | null | true | false | number _ | text _ _ | noText _ _ => cases htoken
          | openArray | closeArray | openObject | closeObject | comma | colon =>
              exact hcons (by decide) (by decide) rest

/-- Blanks in front of a text are passed over. -/
theorem tokensFrom?_gap {gap : List Char} (hgap : ∀ c ∈ gap, isJsonBlank c = true)
    (read : List Token) (text : List Char) :
    tokensFrom? read (gap ++ text) = tokensFrom? read text := by
  induction gap with
  | nil => rfl
  | cons c gap ih =>
      obtain ⟨hc, htail⟩ := List.forall_mem_cons.mp hgap
      rw [List.cons_append, tokensFrom?, if_pos hc, ih htail]

/-- **A text made of pieces is scanned,** where no two values stand side by side. -/
theorem tokensFrom?_of_spelled {tokens : List Token} {text : List Char}
    (h : Spelled tokens text) (hseparated : Separated tokens) (read : List Token) :
    tokensFrom? read text = some (read.reverse ++ tokens) := by
  induction h generalizing read with
  | nil hgap =>
      have hnil := tokensFrom?_gap hgap read []
      rw [List.append_nil] at hnil
      rw [hnil, tokensFrom?, List.append_nil]
  | @cons token tokens gap lexeme rest hgap hlexeme hrest ih =>
      obtain ⟨hfirst, htail⟩ := List.isChain_cons.mp hseparated
      have hend (hscalar : token.isScalar = true) : EndsNumeral rest :=
        hrest.endsNumeral fun t ht => hfirst t ht hscalar
      obtain ⟨c, letters, rfl, hblank, hscan⟩ := scanToken?_of_lexeme hlexeme hend
      rw [tokensFrom?_gap hgap, List.cons_append, tokensFrom?, if_neg (by simp [hblank])]
      split
      · rename_i hnone
        rw [hscan] at hnone
        cases hnone
      · rename_i scanned after hsome
        rw [hscan] at hsome
        obtain ⟨rfl, rfl⟩ := Prod.mk.inj (Option.some.inj hsome)
        rw [ih htail, List.reverse_cons, List.append_assoc, List.singleton_append]

/-- **The tokens of a text are those that it spells,** where they stay apart. -/
theorem tokensOf?_of_spelled {tokens : List Token} {text : String}
    (h : Spelled tokens text.toList) (hseparated : Separated tokens) :
    tokensOf? text = some tokens := tokensFrom?_of_spelled h hseparated []

/-! ## Halves that stand alone -/

/-- A text made of pieces, one of them a string with half of a surrogate pair that stands
alone. -/
def HasLoneSurrogate (text : List Char) : Prop :=
  ∃ tokens, Spelled tokens text ∧ .scalar (.string none) ∈ tokens

/-- Only a code behind a backslash is such a half. -/
theorem not_hasLoneSurrogate {text : List Char} (h : '\\' ∉ text) : ¬ HasLoneSurrogate text := by
  intro hlone
  obtain ⟨tokens, hspelled, hmem⟩ := hlone
  induction hspelled with
  | nil _ => cases hmem
  | @cons token tokens gap lexeme rest _ hlexeme _ ih =>
      simp only [List.mem_append, not_or] at h
      obtain ⟨-, hslash, hrest⟩ := h
      rcases List.mem_cons.mp hmem with rfl | htail
      · cases hlexeme with
        | noText hform hnone =>
            have hbody := List.not_mem_of_not_mem_cons hslash
            exact hnone _ (hform.denotes fun hin => hbody (List.mem_append_left _ hin))
      · exact ih hrest htail

end RuleEngine
