import RuleEngine.Proofs.Trimming
import RuleEngine.Proofs.Words
import RuleEngine.Rule.Split
import RuleEngine.Rule.Verdict

/-!
# Literals in quotes

A text that is to be compared with a field is written between single quotes, and the quotes
are taken off again.  The literal is one word, so the text must have no white space; and
quotes are taken off as long as there are any, so the text must not begin or end with one of
its own.  Any other text stands in quotes and is found again, the empty one among them, and
also `AND` and `OR`, which are no keywords once they are quoted.

These conditions on the text are those of every literal: what is left of a literal without
its quotes is such a text.  So a field that holds any other text is equal to no literal at
all, quoted or not.

* `Quotable` — the texts that can stand in quotes;
* `Condition.unquoted_quotes`, `Condition.quotable_unquoted` — such a text is found again,
  and every literal is one of them;
* `Condition.exists_equal_iff` — the values that some literal is equal to;
* `Rule.exists_verdict_quotes`, `verdictOfText_of_not_quotable` — a text in quotes is compared
  as it is, and one that cannot be quoted is equal to nothing;
* `Rule.verdict_quoted` — both of these.
-/

namespace RuleEngine

/-- A text that can stand in quotes as a literal: one without white space, and with no
quote at either end. -/
structure Quotable (text : String) : Prop where
  solid : ∀ c ∈ text.toList, isBlank c = false
  first : ∀ c ∈ text.toList.head?, c ≠ '\x27'
  last : ∀ c ∈ text.toList.getLast?, c ≠ '\x27'

/-- A text is quotable where it has no white space, and no quote at either end. -/
theorem quotable_iff {text : String} :
    Quotable text ↔ (∀ c ∈ text.toList, isBlank c = false) ∧
      text.toList.head? ≠ some '\x27' ∧ text.toList.getLast? ≠ some '\x27' := by
  have hend (e : Option Char) : (∀ c ∈ e, c ≠ '\x27') ↔ e ≠ some '\x27' := by
    cases e <;> simp
  rw [← hend, ← hend]
  exact ⟨fun h => ⟨h.solid, h.first, h.last⟩, fun h => ⟨h.1, h.2.1, h.2.2⟩⟩

instance (text : String) : Decidable (Quotable text) :=
  decidable_of_iff (text.toList.all (fun c => !isBlank c) = true ∧
    text.toList.head? ≠ some '\x27' ∧ text.toList.getLast? ≠ some '\x27')
    (by simp [quotable_iff])

/-- What keeps a text from being quoted. -/
theorem not_quotable_iff {text : String} :
    ¬ Quotable text ↔ (∃ c ∈ text.toList, isBlank c = true) ∨
      text.toList.head? = some '\x27' ∨ text.toList.getLast? = some '\x27' := by
  rw [quotable_iff, not_and_or, not_and_or, not_not, not_not]
  simp only [not_forall, Bool.not_eq_false, exists_prop]

/-- A text in quotes is one word. -/
theorem Quotable.isWord_quotes {text : String} (h : Quotable text) :
    IsWord ("'" ++ text ++ "'").toList := by
  have hchars : ("'" ++ text ++ "'").toList = '\x27' :: (text.toList ++ ['\x27']) := by
    simp [String.toList_append]
  have hquote : isBlank '\x27' = false := by decide
  rw [hchars]
  refine ⟨List.cons_ne_nil _ _, fun c hc => ?_⟩
  simp only [List.mem_cons, List.mem_append, List.not_mem_nil, or_false] at hc
  rcases hc with rfl | hc | rfl
  · exact hquote
  · exact h.solid c hc
  · exact hquote

/-- A text in quotes is no keyword. -/
theorem quotes_ne_keyword (text : String) (c : Connective) : "'" ++ text ++ "'" ≠ c.keyword := by
  intro heq
  have hhead : ("'" ++ text ++ "'").toList.head? = some '\x27' := by simp [String.toList_append]
  rw [heq] at hhead
  cases c
  all_goals simp [Connective.keyword] at hhead

/-- A word, a comparison and a word with single spaces between them. -/
theorem words_equality {field literal : String} (hfield : IsWord field.toList)
    (hliteral : IsWord literal.toList) :
    words (field ++ " " ++ "==" ++ " " ++ literal) = [field, "==", literal] := by
  have hsign : words "==" = ["=="] := words_of_isWord (by decide)
  rw [words_append_space, words_append_space, words_of_isWord hfield, hsign,
    words_of_isWord hliteral]
  rfl

namespace Condition

/-- **A text is found again between its quotes.** -/
theorem unquoted_quotes {text : String} (h : Quotable text) :
    unquoted ("'" ++ text ++ "'") = text := by
  have hchars : ("'" ++ text ++ "'").toList = ['\x27'] ++ text.toList ++ ['\x27'] := by
    simp [String.toList_append]
  have hquote : ∀ c ∈ ['\x27'], decide (c = '\x27') = true := by simp
  have hfirst : ∀ c ∈ text.toList.head?, decide (c = '\x27') = false :=
    fun c hc => decide_eq_false (h.first c hc)
  have hlast : ∀ c ∈ text.toList.getLast?, decide (c = '\x27') = false :=
    fun c hc => decide_eq_false (h.last c hc)
  rw [unquoted, hchars, trimWhere_append hquote hquote hfirst hlast, String.ofList_toList]

/-- **What is left of a literal can be quoted.** -/
theorem quotable_unquoted {literal : String} (h : IsWord literal.toList) :
    Quotable (unquoted literal) := by
  have htrimmed : trimWhere (· = '\x27') literal.toList = (unquoted literal).toList := by
    rw [unquoted, String.toList_ofList]
  obtain ⟨⟨front, back, hchars, -, -⟩, hfirst, hlast⟩ := trimWhere_eq_iff.mp htrimmed
  constructor
  · intro c hc
    apply h.2
    rw [hchars]
    exact List.mem_append_left _ (List.mem_append_right _ hc)
  · intro c hc
    exact of_decide_eq_false (hfirst c hc)
  · intro c hc
    exact of_decide_eq_false (hlast c hc)

/-- An equality always has a verdict: whether the field is there and its display text is
what the literal has between its quotes. -/
theorem exists_verdict_equal (field literal : String) (record : Record) :
    ∃ b, verdict ⟨field, .equal, literal⟩ record = .ok b ∧
      (b = true ↔ ∃ value, record.get? field = some value ∧
        value.display = unquoted literal) := by
  cases hvalue : record.get? field with
  | none => exact ⟨false, by rw [verdict, hvalue], by simp⟩
  | some value =>
      refine ⟨decide (value.display = unquoted literal), by rw [verdict, hvalue], ?_⟩
      simp

/-- **The values that a literal can be equal to** are those whose display text can be
quoted. -/
theorem exists_equal_iff (field : String) (record : Record) :
    (∃ literal, IsWord literal.toList ∧ verdict ⟨field, .equal, literal⟩ record = .ok true) ↔
      ∃ value, record.get? field = some value ∧ Quotable value.display := by
  have htrue (literal : String) : verdict ⟨field, .equal, literal⟩ record = .ok true ↔
      ∃ value, record.get? field = some value ∧ value.display = unquoted literal := by
    obtain ⟨b, hverdict, hb⟩ := exists_verdict_equal field literal record
    rw [← hb, hverdict, Except.ok.injEq]
  simp only [htrue]
  constructor
  · rintro ⟨literal, hliteral, value, hvalue, hdisplay⟩
    exact ⟨value, hvalue, hdisplay ▸ quotable_unquoted hliteral⟩
  · rintro ⟨value, hvalue, hquotable⟩
    exact ⟨"'" ++ value.display ++ "'", hquotable.isWord_quotes, value, hvalue,
      (unquoted_quotes hquotable).symm⟩

end Condition

section

variable {field : String} {record : Record}

/-- **A field that holds what cannot be quoted** is equal to no literal. -/
theorem verdictOfText_of_not_quotable {s : String} (hvalue : record.get? field = some (.text s))
    (hs : ¬ Quotable s) {text literal : String} {rest : List String}
    (hwords : words text = field :: "==" :: literal :: rest) :
    verdictOfText record text = .ok false := by
  have hequal : Comparison.ofWord "==" = .equal := by decide
  have hliteral : IsWord literal.toList := isWord_of_mem_words (by rw [hwords]; simp)
  obtain ⟨b, hverdict, -⟩ := Condition.exists_verdict_equal field literal record
  have hb : b = false := by
    apply Bool.eq_false_iff.mpr
    rintro rfl
    obtain ⟨value, hfound, hquotable⟩ :=
      (Condition.exists_equal_iff field record).mp ⟨literal, hliteral, hverdict⟩
    obtain rfl := Option.some.inj (hvalue.symm.trans hfound)
    exact hs hquotable
  rw [verdictOfText_of_words hwords, hequal, hverdict, hb]

namespace Rule

/-- **The rule of a text in quotes** is one condition, and compares the field with that
text. -/
theorem exists_verdict_quotes (hfield : IsWord field.toList)
    (hkeyword : ∀ c : Connective, field ≠ c.keyword) {s : String} (hs : Quotable s) :
    ∃ b, (ofText (field ++ " == '" ++ s ++ "'")).verdict record = .ok b ∧
      (b = true ↔ ∃ value, record.get? field = some value ∧ value.display = s) := by
  have hequal : Comparison.ofWord "==" = .equal := by decide
  have htext : field ++ " == '" ++ s ++ "'" =
      field ++ " " ++ "==" ++ " " ++ ("'" ++ s ++ "'") := by
    apply String.toList_inj.mp
    simp [String.toList_append]
  have hwords : words (field ++ " == '" ++ s ++ "'") = [field, "==", "'" ++ s ++ "'"] := by
    rw [htext, words_equality hfield hs.isWord_quotes]
  have hnone : ∀ c : Connective, c.keyword ∉ words (field ++ " == '" ++ s ++ "'") := by
    intro c
    have hsign : c.keyword ≠ "==" := by
      cases c
      all_goals decide
    rw [hwords]
    simpa using ⟨(hkeyword c).symm, hsign, (quotes_ne_keyword s c).symm⟩
  obtain ⟨b, hverdict, hb⟩ := Condition.exists_verdict_equal field ("'" ++ s ++ "'") record
  rw [Condition.unquoted_quotes hs] at hb
  refine ⟨b, ?_, hb⟩
  rw [ofText_of_not_mem hnone, verdict_operand, verdictOfText_of_words hwords, hequal, hverdict]

/-- **A text in quotes is compared as it is.**  Let a field have a name of one word that is
no keyword.  The rule that compares it with a text in quotes, one without white space and
with no quote at either end, has a verdict on every record: whether the field is there and
has that display text.  If the field holds a text with white space, or with a quote at an
end, then every condition that compares it with a literal, whatever the literal is and
whatever stands behind it, is false, and so is the rule where the condition is all of it. -/
theorem verdict_quoted (hfield : IsWord field.toList)
    (hkeyword : ∀ c : Connective, field ≠ c.keyword) (record : Record) :
    (∀ s, Quotable s → ∃ b,
      (ofText (field ++ " == '" ++ s ++ "'")).verdict record = .ok b ∧
      (b = true ↔ ∃ value, record.get? field = some value ∧ value.display = s)) ∧
    (∀ s, record.get? field = some (.text s) →
      (∃ c ∈ s.toList, isBlank c = true) ∨
        s.toList.head? = some '\x27' ∨ s.toList.getLast? = some '\x27' →
      ∀ text literal rest, words text = field :: "==" :: literal :: rest →
        (operand text).verdict record = .ok false ∧
        ((∀ c : Connective, c.keyword ∉ words text) →
          (ofText text).verdict record = .ok false)) := by
  refine ⟨fun s hs => exists_verdict_quotes hfield hkeyword hs, ?_⟩
  intro s hvalue hs text literal rest hwords
  have hfalse : (operand text).verdict record = .ok false := by
    rw [verdict_operand]
    exact verdictOfText_of_not_quotable hvalue (not_quotable_iff.mpr hs) hwords
  refine ⟨hfalse, fun hnone => ?_⟩
  rw [ofText_of_not_mem hnone, hfalse]

/-- A keyword in quotes is a text like any other, and a name with a space in it is equal to
no literal. -/
theorem verdict_quoted_keyword :
    (ofText "name == 'AND'").verdict (Record.empty.insert "name" (.text "AND")) = .ok true ∧
    (ofText "name == 'New York'").verdict
      (Record.empty.insert "name" (.text "New York")) = .ok false := by
  have hname : IsWord "name".toList := by decide
  have hkeyword : ∀ c : Connective, "name" ≠ c.keyword := by
    intro c
    cases c
    all_goals decide
  constructor
  · have hvalue := Record.get?_insert_self .empty "name" (.text "AND")
    obtain ⟨hquoted, -⟩ :=
      verdict_quoted hname hkeyword (Record.empty.insert "name" (.text "AND"))
    obtain ⟨b, hverdict, hb⟩ := hquoted "AND" (by decide)
    rw [hb.mpr ⟨_, hvalue, rfl⟩] at hverdict
    exact hverdict
  · have hvalue := Record.get?_insert_self .empty "name" (.text "New York")
    have hspace : ∃ c ∈ "New York".toList, isBlank c = true := ⟨' ', by simp, isBlank_space⟩
    have hnone : ∀ c : Connective, c.keyword ∉ words "name == 'New York'" :=
      Connective.keyword_not_mem (by decide) (by decide)
    obtain ⟨-, hfalse⟩ :=
      verdict_quoted hname hkeyword (Record.empty.insert "name" (.text "New York"))
    obtain ⟨-, hrule⟩ :=
      hfalse "New York" hvalue (.inl hspace) "name == 'New York'" "'New" ["York'"] (by decide)
    exact hrule hnone

end Rule

end

end RuleEngine
