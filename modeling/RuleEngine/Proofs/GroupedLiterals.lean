import RuleEngine.Condition
import RuleEngine.Proofs.LiteralForms

/-!
# Literals with underscores

In the digits of a literal single underscores may stand, to group them: between two digits
of one run, and nowhere else.

The reader of literals knows nothing of runs.  It looks at the two neighbours of each
underscore, and then takes all underscores out and reads what is left.  This is enough,
since an underscore between two digits is inside a run, wherever in the text it stands, and
no part of a literal can end in one or begin with one.  So a text is a literal just where
taking the underscores out leaves one, and they stood between digits.

* `GroupedDigits` — a run of digits with underscores;
* `Ungroups` — a text, and what is left of it without its underscores;
* `Ungroups.append_run`, `Ungroups.exists_run` — a run, ungrouped and grouped again;
* `LiteralForm.exists_plain`, `LiteralForm.of_plain` — underscores in runs are underscores
  between digits;
* `readLiteral?_grammar` — which literals are read, as what, and which conditions fail.
-/

namespace RuleEngine

/-- A run of digits, one at least, with single underscores between some of them. -/
inductive GroupedDigits : List Char → List Digit → Prop
  | last (d : Digit) : GroupedDigits [d.toChar] [d]
  | digit (d : Digit) {text : List Char} {digits : List Digit}
      (h : GroupedDigits text digits) : GroupedDigits (d.toChar :: text) (d :: digits)
  | grouped (d : Digit) {text : List Char} {digits : List Digit}
      (h : GroupedDigits text digits) : GroupedDigits (d.toChar :: '_' :: text) (d :: digits)

/-! ## Underscores -/

/-- A text whose underscores all stand between digits, and the text without them. -/
def Ungroups (text plain : List Char) : Prop :=
  underscoresGroup false text = true ∧ text.filter (· ≠ '_') = plain

theorem Ungroups.nil : Ungroups [] [] := ⟨rfl, rfl⟩

/-- What stands before a text that does not start with an underscore does not matter. -/
theorem underscoresGroup_cons {c : Char} (hc : c ≠ '_') (digitBefore : Bool)
    (text : List Char) :
    underscoresGroup digitBefore (c :: text) = underscoresGroup (isDigitChar c) text := by
  rw [underscoresGroup, if_neg hc]

/-- An underscore needs a digit on either side. -/
theorem underscoresGroup_underscore (digitBefore : Bool) (text : List Char) :
    underscoresGroup digitBefore ('_' :: text) =
      (digitBefore && startsWithDigit text && underscoresGroup false text) := by
  rw [underscoresGroup, if_pos rfl]

/-- What is in order behind anything is in order behind a digit as well. -/
theorem underscoresGroup_of_false {text : List Char} (h : underscoresGroup false text = true)
    (digitBefore : Bool) : underscoresGroup digitBefore text = true := by
  cases text with
  | nil => rfl
  | cons c text =>
      by_cases hc : c = '_'
      · subst hc
        simp [underscoresGroup_underscore] at h
      · rwa [underscoresGroup_cons hc] at h ⊢

/-- Anything but an underscore may be put in front. -/
theorem Ungroups.cons {c : Char} {text plain : List Char} (hc : c ≠ '_')
    (h : Ungroups text plain) : Ungroups (c :: text) (c :: plain) := by
  obtain ⟨hgroup, hfilter⟩ := h
  constructor
  · rw [underscoresGroup_cons hc]
    exact underscoresGroup_of_false hgroup _
  · rw [List.filter_cons_of_pos (by simpa using hc), hfilter]

/-- Any text without underscores may be put in front. -/
theorem Ungroups.append {front text plain : List Char} (hfront : '_' ∉ front)
    (h : Ungroups text plain) : Ungroups (front ++ text) (front ++ plain) := by
  induction front with
  | nil => exact h
  | cons c front ih =>
      rw [List.mem_cons, not_or] at hfront
      exact (ih hfront.2).cons (Ne.symm hfront.1)

/-- A run with underscores, ungrouped. -/
theorem Ungroups.append_run {run text plain : List Char} {digits : List Digit}
    (hrun : GroupedDigits run digits) (h : Ungroups text plain) :
    Ungroups (run ++ text) (digitText digits ++ plain) := by
  have hdigit (d : Digit) : d.toChar ≠ '_' := ne_toChar (by decide) d
  induction hrun with
  | last d => exact h.cons (hdigit d)
  | digit d _ ih => exact ih.cons (hdigit d)
  | @grouped d run digits hrun ih =>
      obtain ⟨hgroup, hfilter⟩ := ih
      have hstart : startsWithDigit (run ++ text) = true := by
        cases hrun <;> exact isDigitChar_toChar _
      constructor
      · rw [List.cons_append, underscoresGroup_cons (hdigit d), isDigitChar_toChar,
          List.cons_append, underscoresGroup_underscore, hstart, hgroup]
        rfl
      · rw [List.cons_append, List.filter_cons_of_pos (by simpa using hdigit d),
          List.cons_append, List.filter_cons_of_neg (by simp), hfilter]
        rfl

/-- A text that is not empty has no underscore at its front. -/
theorem Ungroups.exists_cons {c : Char} {text plain : List Char} (h : Ungroups text (c :: plain)) :
    ∃ rest, text = c :: rest ∧ underscoresGroup (isDigitChar c) rest = true ∧
      rest.filter (· ≠ '_') = plain := by
  obtain ⟨hgroup, hfilter⟩ := h
  cases text with
  | nil => cases hfilter
  | cons d rest =>
      by_cases hd : d = '_'
      · subst hd
        simp [underscoresGroup_underscore] at hgroup
      · rw [List.filter_cons_of_pos (by simpa using hd)] at hfilter
        obtain ⟨rfl, hrest⟩ := List.cons.inj hfilter
        rw [underscoresGroup_cons hd] at hgroup
        exact ⟨rest, rfl, hgroup, hrest⟩

theorem Ungroups.eq_nil {text : List Char} (h : Ungroups text []) : text = [] := by
  obtain ⟨hgroup, hfilter⟩ := h
  cases text with
  | nil => rfl
  | cons d rest =>
      by_cases hd : d = '_'
      · subst hd
        simp [underscoresGroup_underscore] at hgroup
      · rw [List.filter_cons_of_pos (by simpa using hd)] at hfilter
        cases hfilter

/-- What has no digits in it has no underscores in it or behind it. -/
theorem Ungroups.exists_append {front text plain : List Char}
    (hfront : ∀ c ∈ front, isDigitChar c = false) (h : Ungroups text (front ++ plain)) :
    ∃ rest, text = front ++ rest ∧ Ungroups rest plain := by
  induction front generalizing text with
  | nil => exact ⟨text, rfl, h⟩
  | cons c front ih =>
      obtain ⟨hc, htail⟩ := List.forall_mem_cons.mp hfront
      obtain ⟨rest, rfl, hgroup, hfilter⟩ := h.exists_cons
      rw [hc] at hgroup
      obtain ⟨rest, rfl, hrest⟩ := ih htail ⟨hgroup, hfilter⟩
      exact ⟨rest, rfl, hrest⟩

/-- A text that starts with a digit has it in front without its underscores as well. -/
theorem not_endsDigits_filter {text : List Char} (h : startsWithDigit text = true) :
    ¬ EndsDigits (text.filter (· ≠ '_')) := by
  cases text with
  | nil => cases h
  | cons c text =>
      obtain ⟨d, rfl⟩ := eq_toChar_of_isDigitChar h
      have hkeep : d.toChar ≠ '_' := ne_toChar (by decide) d
      rw [List.filter_cons_of_pos (by simpa using hkeep)]
      intro hend
      have hnone := hend d.toChar rfl
      rw [digitOfChar?_toChar] at hnone
      cases hnone

/-- **Digits come from a run with underscores.** -/
theorem Ungroups.exists_run {text plain : List Char} {digits : List Digit} (hne : digits ≠ [])
    (hend : EndsDigits plain) (h : Ungroups text (digitText digits ++ plain)) :
    ∃ run rest, text = run ++ rest ∧ GroupedDigits run digits ∧ Ungroups rest plain := by
  induction digits generalizing text with
  | nil => exact absurd rfl hne
  | cons d digits ih =>
      obtain ⟨rest, rfl, hgroup, hfilter⟩ := Ungroups.exists_cons (c := d.toChar) h
      rw [isDigitChar_toChar] at hgroup
      by_cases hunderscore : ∃ after, rest = '_' :: after
      · -- the underscore has a digit behind it, so the run goes on
        obtain ⟨after, rfl⟩ := hunderscore
        rw [underscoresGroup_underscore, Bool.true_and, Bool.and_eq_true] at hgroup
        obtain ⟨hstart, hgroup⟩ := hgroup
        rw [List.filter_cons_of_neg (by simp)] at hfilter
        have hmore : digits ≠ [] := by
          rintro rfl
          have hplain : after.filter (· ≠ '_') = plain := hfilter
          exact not_endsDigits_filter hstart (hplain.symm ▸ hend)
        obtain ⟨run, rest, rfl, hrun, hrest⟩ := ih hmore ⟨hgroup, hfilter⟩
        exact ⟨_, rest, rfl, .grouped d hrun, hrest⟩
      · have hplain : Ungroups rest (digitText digits ++ plain) := by
          refine ⟨?_, hfilter⟩
          cases rest with
          | nil => rfl
          | cons c rest =>
              have hc : c ≠ '_' := fun hc => hunderscore ⟨rest, by rw [hc]⟩
              rwa [underscoresGroup_cons hc] at hgroup ⊢
        by_cases hmore : digits = []
        · subst hmore
          exact ⟨[d.toChar], rest, rfl, .last d, hplain⟩
        · obtain ⟨run, rest, rfl, hrun, hrest⟩ := ih hmore hplain
          exact ⟨_, rest, rfl, .digit d hrun, hrest⟩

/-! ## Literals with underscores -/

/-- A sign is a minus or a plus, or nothing. -/
theorem SignForm.mem {sign : List Char} {negative : Bool} (h : SignForm sign negative) :
    ∀ c ∈ sign, c = '-' ∨ c = '+' := by
  cases h <;> simp

theorem SignForm.no_digits {sign : List Char} {negative : Bool} (h : SignForm sign negative) :
    ∀ c ∈ sign, isDigitChar c = false := by
  intro c hc
  rcases h.mem c hc with rfl | rfl <;> decide

theorem SignForm.no_underscore {sign : List Char} {negative : Bool}
    (h : SignForm sign negative) : '_' ∉ sign := by
  intro hmem
  have hsign := h.mem '_' hmem
  simp at hsign

/-- An exponent with underscores in its digits is one that they leave when they are taken out. -/
theorem exponentForm_grouped_iff {part : List Char} {exponent : Option Int} :
    ExponentForm GroupedDigits part exponent ↔
      ∃ plain, Ungroups part plain ∧ ExponentForm PlainDigits plain exponent := by
  constructor
  · intro h
    cases h with
    | none => exact ⟨[], .nil, .none⟩
    | @some mark sign text negative digits hmark hsign hrun =>
        have hne : digits ≠ [] := by cases hrun <;> exact List.cons_ne_nil _ _
        have htext := Ungroups.nil.append_run hrun
        rw [List.append_nil, List.append_nil] at htext
        have hmarked : mark ≠ '_' := by rcases hmark with rfl | rfl <;> decide
        exact ⟨_, (htext.append hsign.no_underscore).cons hmarked,
          .some hmark hsign ⟨hne, rfl⟩⟩
  · intro h
    obtain ⟨plain, hpart, hform⟩ := h
    cases hform with
    | none => exact hpart.eq_nil ▸ .none
    | @some mark sign text negative digits hmark hsign hrun =>
        obtain ⟨hne, rfl⟩ := hrun
        have hfront : ∀ c ∈ mark :: sign, isDigitChar c = false := by
          refine List.forall_mem_cons.mpr ⟨?_, hsign.no_digits⟩
          rcases hmark with rfl | rfl <;> decide
        obtain ⟨rest, rfl, hrest⟩ := hpart.exists_append hfront
        rw [← List.append_nil (digitText digits)] at hrest
        obtain ⟨run, rest, rfl, hrun, hnil⟩ := hrest.exists_run hne endsDigits_nil
        rw [hnil.eq_nil, List.append_nil]
        exact .some hmark hsign hrun

/-- A mantissa without its underscores, whatever stands behind it. -/
theorem MantissaForm.exists_plain {mantissa : List Char} {whole fraction : List Digit}
    (h : MantissaForm GroupedDigits mantissa whole fraction) :
    ∃ plain, MantissaForm PlainDigits plain whole fraction ∧
      ∀ {text rest}, Ungroups text rest → Ungroups (mantissa ++ text) (plain ++ rest) := by
  have hplain {text : List Char} {digits : List Digit} (hrun : GroupedDigits text digits) :
      PlainDigits (digitText digits) digits :=
    ⟨by cases hrun <;> exact List.cons_ne_nil _ _, rfl⟩
  have hpoint {text rest : List Char} (h : Ungroups text rest) :
      Ungroups ('.' :: text) ('.' :: rest) := h.cons (by decide)
  cases h with
  | whole hrun => exact ⟨_, .whole (hplain hrun), fun h => h.append_run hrun⟩
  | point hrun =>
      refine ⟨_, .point (hplain hrun), fun h => ?_⟩
      rw [List.append_assoc, List.append_assoc]
      exact (hpoint h).append_run hrun
  | fraction hrun => exact ⟨_, .fraction (hplain hrun), fun h => hpoint (h.append_run hrun)⟩
  | both hrun hrun' =>
      refine ⟨_, .both (hplain hrun) (hplain hrun'), fun h => ?_⟩
      rw [List.append_assoc, List.append_assoc]
      exact (hpoint (h.append_run hrun')).append_run hrun

/-- A mantissa that is left without its underscores had them in its runs. -/
theorem MantissaForm.exists_grouped {text plain rest : List Char} {whole fraction : List Digit}
    (h : MantissaForm PlainDigits plain whole fraction) (hend : EndsDigits rest)
    (htext : Ungroups text (plain ++ rest)) :
    ∃ mantissa after, text = mantissa ++ after ∧
      MantissaForm GroupedDigits mantissa whole fraction ∧ Ungroups after rest := by
  have hdot (rest : List Char) : EndsDigits ('.' :: rest) := endsDigits_cons (by decide) rest
  have hpoint {text rest : List Char} (h : Ungroups text ('.' :: rest)) :
      ∃ after, text = '.' :: after ∧ Ungroups after rest := by
    have hfront : ∀ c ∈ ['.'], isDigitChar c = false :=
      List.forall_mem_singleton.mpr (by decide)
    exact h.exists_append hfront
  cases h with
  | whole hrun =>
      obtain ⟨hne, rfl⟩ := hrun
      obtain ⟨run, after, rfl, hrun, hafter⟩ := htext.exists_run hne hend
      exact ⟨run, after, rfl, .whole hrun, hafter⟩
  | point hrun =>
      obtain ⟨hne, rfl⟩ := hrun
      rw [List.append_assoc] at htext
      obtain ⟨run, after, rfl, hrun, hafter⟩ := htext.exists_run hne (hdot rest)
      obtain ⟨after, rfl, hrest⟩ := hpoint hafter
      exact ⟨_, after, by simp, .point hrun, hrest⟩
  | fraction hrun =>
      obtain ⟨hne, rfl⟩ := hrun
      obtain ⟨after, rfl, hafter⟩ := hpoint htext
      obtain ⟨run, after, rfl, hrun, hafter⟩ := hafter.exists_run hne hend
      exact ⟨_, after, rfl, .fraction hrun, hafter⟩
  | both hrun hrun' =>
      obtain ⟨hne, rfl⟩ := hrun
      obtain ⟨hne', rfl⟩ := hrun'
      rw [List.append_assoc] at htext
      obtain ⟨run, after, rfl, hrun, hafter⟩ := htext.exists_run hne (hdot _)
      obtain ⟨digits, rfl, hdigits⟩ := hpoint hafter
      obtain ⟨run', after, rfl, hrun', hrest⟩ := hdigits.exists_run hne' hend
      exact ⟨_, after, by simp, .both hrun hrun', hrest⟩

/-- A word has neither digits nor underscores. -/
theorem AnyCase.no_digits {word body : List Char} (hword : word ∈ numberWords)
    (h : AnyCase word body) : '_' ∉ body ∧ ∀ c ∈ body, isDigitChar c = false := by
  refine ⟨not_mem_of_anyCase hword h (by decide), ?_⟩
  intro c hc
  by_contra hdigit
  obtain ⟨d, rfl⟩ := eq_toChar_of_isDigitChar (Bool.of_not_eq_false hdigit)
  exact not_mem_of_anyCase hword h (not_isSmall_toChar d) hc

/-- Where there are neither digits nor underscores, nothing is taken out. -/
theorem ungroups_word_iff {sign body text : List Char} {negative : Bool}
    (hsign : SignForm sign negative)
    (hbody : '_' ∉ body ∧ ∀ c ∈ body, isDigitChar c = false) :
    Ungroups text (sign ++ body) ↔ text = sign ++ body := by
  constructor
  · intro h
    have hdigits := List.forall_mem_append.mpr ⟨hsign.no_digits, hbody.2⟩
    rw [← List.append_nil (sign ++ body)] at h
    obtain ⟨rest, rfl, hrest⟩ := h.exists_append hdigits
    rw [hrest.eq_nil, List.append_nil]
  · rintro rfl
    have h := (Ungroups.nil.append hbody.1).append hsign.no_underscore
    rwa [List.append_nil] at h

/-- A literal without its underscores is a literal. -/
theorem LiteralForm.exists_plain {text : List Char} {x : Binary64}
    (h : LiteralForm GroupedDigits text x) :
    ∃ plain, Ungroups text plain ∧ LiteralForm PlainDigits plain x := by
  cases h with
  | nan hsign hword =>
      have hbody := hword.no_digits (by decide)
      exact ⟨_, (ungroups_word_iff hsign hbody).mpr rfl, .nan hsign hword⟩
  | infinity hsign hword =>
      have hbody := hword.elim (AnyCase.no_digits (by decide)) (AnyCase.no_digits (by decide))
      exact ⟨_, (ungroups_word_iff hsign hbody).mpr rfl, .infinity hsign hword⟩
  | numeral hsign hmantissa hexponent =>
      obtain ⟨plain, hpart, hform⟩ := exponentForm_grouped_iff.mp hexponent
      obtain ⟨front, hfront, hungroups⟩ := hmantissa.exists_plain
      exact ⟨_, (hungroups hpart).append hsign.no_underscore, .numeral hsign hfront hform⟩

/-- What is left a literal without its underscores had them in its runs of digits. -/
theorem LiteralForm.of_plain {text plain : List Char} {x : Binary64}
    (h : LiteralForm PlainDigits plain x) (htext : Ungroups text plain) :
    LiteralForm GroupedDigits text x := by
  cases h with
  | nan hsign hword =>
      have hbody := hword.no_digits (by decide)
      exact (ungroups_word_iff hsign hbody).mp htext ▸ .nan hsign hword
  | infinity hsign hword =>
      have hbody := hword.elim (AnyCase.no_digits (by decide)) (AnyCase.no_digits (by decide))
      exact (ungroups_word_iff hsign hbody).mp htext ▸ .infinity hsign hword
  | numeral hsign hmantissa hexponent =>
      obtain ⟨body, rfl, hbody⟩ := htext.exists_append hsign.no_digits
      obtain ⟨mantissa, part, rfl, hgrouped, hpart⟩ :=
        hmantissa.exists_grouped hexponent.endsDigits hbody
      exact .numeral hsign hgrouped (exponentForm_grouped_iff.mpr ⟨_, hpart, hexponent⟩)

/-- **Underscores in runs are underscores between digits.** -/
theorem literalForm_grouped_iff {text : List Char} {x : Binary64} :
    LiteralForm GroupedDigits text x ↔
      ∃ plain, Ungroups text plain ∧ LiteralForm PlainDigits plain x :=
  ⟨LiteralForm.exists_plain, fun ⟨_, htext, hform⟩ => hform.of_plain htext⟩

/-! ## All literals -/

/-- **Literals are read in all their forms.** -/
theorem readLiteral?_eq_some_iff {literal : String} {x : Binary64} :
    readLiteral? literal = some x ↔ LiteralForm GroupedDigits literal.toList x := by
  rw [literalForm_grouped_iff]
  unfold readLiteral?
  by_cases hgroup : underscoresGroup false literal.toList = true
  · rw [if_pos hgroup, readPlainLiteral?_eq_some_iff]
    constructor
    · intro h
      exact ⟨_, ⟨hgroup, rfl⟩, h⟩
    · intro h
      obtain ⟨plain, ⟨-, rfl⟩, hform⟩ := h
      exact hform
  · rw [if_neg hgroup]
    simp [Ungroups, hgroup]

/-- A literal without its underscores. -/
def withoutUnderscores (literal : String) : String :=
  String.ofList (literal.toList.filter (· ≠ '_'))

/-- Underscores mean nothing, where they may stand. -/
theorem readLiteral?_withoutUnderscores {literal : String} {x : Binary64}
    (h : readLiteral? literal = some x) : readLiteral? (withoutUnderscores literal) = some x := by
  have hnone : '_' ∉ literal.toList.filter (fun c => decide (c ≠ '_')) := by simp
  rw [withoutUnderscores, readLiteral?_of_not_mem hnone]
  simp only [readLiteral?] at h
  split at h
  · exact h
  · cases h

/-- A field that holds a number is ordered against any literal, and against nothing
else. -/
theorem Condition.verdict_fails_iff {record : Record} {field literal : String}
    {comparison : Comparison} {value : Value} (hfield : record.get? field = some value)
    (hnumber : ∀ s, value ≠ .text s) (horder : comparison = .greater ∨ comparison = .less) :
    (∃ fault, Condition.verdict ⟨field, comparison, literal⟩ record = .error fault) ↔
      readLiteral? literal = none := by
  simp only [Condition.verdict_eq_error_iff, Condition.order_eq_error_iff]
  constructor
  · intro h
    obtain ⟨fault, value', hvalue, -, ⟨hnone, -⟩ | ⟨x, s, -, htext, -⟩⟩ := h
    · exact hnone
    · rw [hfield] at hvalue
      exact absurd ((Option.some.inj hvalue).trans htext) (hnumber s)
  · intro h
    exact ⟨_, value, hfield, horder, .inl ⟨h, rfl⟩⟩

/-- **The literals.**  What is read as a number is exactly what has the form of a literal,
underscores included, and it is read as the number of that form.  The same literal without
its underscores is read as the same number.  A condition that orders a field which holds a
number fails where its literal has no such form, and nowhere else. -/
theorem readLiteral?_grammar (literal : String) :
    (∀ x, readLiteral? literal = some x ↔ LiteralForm GroupedDigits literal.toList x) ∧
    (∀ x, readLiteral? literal = some x → readLiteral? (withoutUnderscores literal) = some x) ∧
    (∀ record field value comparison, record.get? field = some value →
      (∀ s, value ≠ .text s) → comparison = .greater ∨ comparison = .less →
      ((∃ fault, Condition.verdict ⟨field, comparison, literal⟩ record = .error fault) ↔
        ∀ x, ¬ LiteralForm GroupedDigits literal.toList x)) := by
  refine ⟨fun x => readLiteral?_eq_some_iff, fun x => readLiteral?_withoutUnderscores, ?_⟩
  intro record field value comparison hfield hnumber horder
  rw [Condition.verdict_fails_iff hfield hnumber horder, Option.eq_none_iff_forall_ne_some]
  simp only [ne_eq, readLiteral?_eq_some_iff]

/-- The literal `1_000` is the number a thousand, as `1000` is, and a condition may order by
it. -/
theorem readLiteral?_grammar_thousand :
    readLiteral? "1_000" = some (Numeral.toBinary64 ⟨false, 1000, [], none⟩) ∧
      readLiteral? "1000" = some (Numeral.toBinary64 ⟨false, 1000, [], none⟩) ∧
      (Record.empty.insert "x" (.integer 5)).get? "x" = some (.integer 5) ∧
      ¬ ∃ fault, Condition.verdict ⟨"x", .greater, "1_000"⟩
        (Record.empty.insert "x" (.integer 5)) = .error fault := by
  obtain ⟨hread, hplain, hfails⟩ := readLiteral?_grammar "1_000"
  have hrun : GroupedDigits "1_000".toList [1, 0, 0, 0] :=
    .grouped 1 (.digit 0 (.digit 0 (.last 0)))
  have hform : LiteralForm GroupedDigits "1_000".toList
      (Numeral.toBinary64 ⟨false, valueOf [1, 0, 0, 0], [], none⟩) :=
    .numeral .none (.whole hrun) .none
  have hsome := (hread _).mpr hform
  have hfield : (Record.empty.insert "x" (.integer 5)).get? "x" = some (.integer 5) := by decide
  have hfail := hfails _ "x" _ .greater hfield (fun s hs => by cases hs) (.inl rfl)
  exact ⟨hsome, hplain _ hsome, hfield, fun h => hfail.mp h _ hform⟩

end RuleEngine
