import RuleEngine.Proofs.Words
import RuleEngine.Rule.Split

/-!
# Rules of texts

A text with a keyword is taken apart into two sides that are written anew, so the question
is what of it survives.  All its words do: read again, the two sides with the keyword between
them are the words of the text, in their order.  What is lost is the white space, of which
each side keeps single spaces only.

Every text has a rule, but few rules have a text: a text is split once at most, so no rule
with two operators comes from one.  Nor does every operator over two operands.  Its sides
were written from words, so they have single spaces only; and it was split at the first
place of its keyword, so the keyword is not on its left.  A split at `OR` was made for want
of an `AND`, so then there is none on either side.  An `OR` on the left of an `AND`, or any
keyword behind the one of the split, may well be there.

These conditions are enough: a rule that meets them is the rule of the text that it is
written as, its sides with the keyword between them.

* `Rule.sides_of_words` — the two sides of a split, read again;
* `Rule.ofText_splits` — what either keyword makes of a text;
* `Rule.ofText_keeps_words` — the three kinds of text and what becomes of them;
* `Rule.text` — a rule written as a text;
* `Rule.HasText` — the conditions;
* `Rule.words_text` — the words of a rule that was written;
* `Rule.hasText_ofText`, `Rule.ofText_text` — the rule of a text meets them, and a rule that
  does is read back;
* `Rule.ofText_image` — the rules that have a text.
-/

namespace RuleEngine

namespace Rule

/-! ## What splitting keeps -/

/-- A side of a split holds the words that it was written from, with single
spaces. -/
theorem sides_of_words {text keyword : String} {before after : List String}
    (h : words text = before ++ keyword :: after) :
    (words (spaced before) = before ∧ SingleSpaced (spaced before).toList) ∧
      words (spaced after) = after ∧ SingleSpaced (spaced after).toList := by
  have hword : ∀ w ∈ before ++ keyword :: after, IsWord w.toList := by
    intro w hw
    rw [← h] at hw
    exact isWord_of_mem_words hw
  have hbefore : ∀ w ∈ before, IsWord w.toList :=
    fun w hw => hword w (List.mem_append_left _ hw)
  have hafter : ∀ w ∈ after, IsWord w.toList :=
    fun w hw => hword w (List.mem_append_right _ (List.mem_cons_of_mem _ hw))
  exact ⟨⟨words_spaced hbefore, singleSpaced_spaced hbefore⟩,
    words_spaced hafter, singleSpaced_spaced hafter⟩

/-- What a keyword makes of a text, the one keyword as the other. -/
theorem ofText_splits {text : String} {c : Connective} (h : c.keyword ∈ words text)
    (hfirst : c = .or → Connective.and.keyword ∉ words text) :
    ∃ l r, ofText text = operator c (operand l) (operand r) ∧
      words l ++ c.keyword :: words r = words text ∧ c.keyword ∉ words l ∧
      SingleSpaced l.toList ∧ SingleSpaced r.toList := by
  obtain ⟨before, after, hwords, hbefore, hrule⟩ := ofText_of_mem h hfirst
  obtain ⟨⟨hl, hlspaced⟩, hr, hrspaced⟩ := sides_of_words hwords
  refine ⟨spaced before, spaced after, hrule, ?_, ?_, hlspaced, hrspaced⟩
  · rw [hl, hr, hwords]
  · rwa [hl]

/-- **Splitting keeps every word.**  The words of a text are the maximal runs of
characters that are not white space.  A text with the word `AND` becomes the
operator of that keyword, split at its first place; a text with the word `OR`
only, likewise; any other text an operand that holds it unchanged.  The words of
the two sides and the keyword between them are the words of the text, and no
side has white space but single spaces between words. -/
theorem ofText_keeps_words (text : String) :
    HoldsWords text.toList ((words text).map String.toList) ∧
    ("AND" ∈ words text → ∃ l r,
      ofText text = operator .and (operand l) (operand r) ∧
      words l ++ "AND" :: words r = words text ∧ "AND" ∉ words l ∧
      SingleSpaced l.toList ∧ SingleSpaced r.toList) ∧
    ("AND" ∉ words text → "OR" ∈ words text → ∃ l r,
      ofText text = operator .or (operand l) (operand r) ∧
      words l ++ "OR" :: words r = words text ∧ "OR" ∉ words l ∧
      "AND" ∉ words l ∧ "AND" ∉ words r ∧
      SingleSpaced l.toList ∧ SingleSpaced r.toList) ∧
    ("AND" ∉ words text → "OR" ∉ words text → ofText text = operand text) := by
  refine ⟨?_, ?_, ?_, ?_⟩
  · exact wordsFrom_eq_iff.mp (by simp [words])
  · intro hand
    exact ofText_splits (c := .and) hand fun h => absurd h (by decide)
  · intro hand hor
    obtain ⟨l, r, hrule, hwords, hl, hlspaced, hrspaced⟩ :=
      ofText_splits (c := .or) hor (fun _ => hand)
    have hleft : "AND" ∉ words l := by
      intro h
      exact hand (hwords ▸ List.mem_append_left _ h)
    have hright : "AND" ∉ words r := by
      intro h
      exact hand (hwords ▸ List.mem_append_right _ (List.mem_cons_of_mem _ h))
    exact ⟨l, r, hrule, hwords, hl, hleft, hright, hlspaced, hrspaced⟩
  · intro hand hor
    refine ofText_of_not_mem fun c => ?_
    cases c with
    | and => exact hand
    | or => exact hor

/-- The keyword `AND` splits a text, even behind an `OR`. -/
example : ofText "a > 1 OR b > 2\tAND  c > 3 AND" =
    operator .and (operand "a > 1 OR b > 2") (operand "c > 3 AND") := by decide

end Rule

/-! ## Rules that have a text -/

/-- A text is its words with one space between each two, and nothing else. -/
def IsSpaced (text : String) : Prop := spaced (words text) = text

instance (text : String) : Decidable (IsSpaced text) :=
  inferInstanceAs (Decidable (spaced (words text) = text))

theorem words_keyword (c : Connective) : words c.keyword = [c.keyword] := by
  cases c <;> decide

namespace Rule

/-- A rule as a text: the texts of its operands, and the keywords between them. -/
def text : Rule → String
  | operand text => text
  | operator c l r => l.text ++ " " ++ c.keyword ++ " " ++ r.text

/-- The rules that a text may have. -/
inductive HasText : Rule → Prop
  | operand {text : String} (hand : "AND" ∉ words text) (hor : "OR" ∉ words text) :
      HasText (operand text)
  | and {l r : String} (hl : IsSpaced l) (hr : IsSpaced r) (hand : "AND" ∉ words l) :
      HasText (operator .and (operand l) (operand r))
  | or {l r : String} (hl : IsSpaced l) (hr : IsSpaced r)
      (hleft : "AND" ∉ words l ∧ "OR" ∉ words l) (hright : "AND" ∉ words r) :
      HasText (operator .or (operand l) (operand r))

/-- **The words of an operator that was written** are those of its sides, and its keyword
between them. -/
theorem words_text (c : Connective) (l r : Rule) :
    words (operator c l r).text = words l.text ++ c.keyword :: words r.text := by
  rw [text, words_append_space, words_append_space, words_keyword, List.append_assoc,
    List.singleton_append]

/-- **The rule of a text meets the conditions.** -/
theorem hasText_ofText (s : String) : HasText (ofText s) := by
  -- the sides of a split, whichever keyword it was made at, are written from words
  have hsides {keyword : String} {before after : List String}
      (h : words s = before ++ keyword :: after) :
      (words (spaced before) = before ∧ IsSpaced (spaced before)) ∧
        words (spaced after) = after ∧ IsSpaced (spaced after) := by
    obtain ⟨⟨hbefore, -⟩, hafter, -⟩ := sides_of_words h
    exact ⟨⟨hbefore, by rw [IsSpaced, hbefore]⟩, hafter, by rw [IsSpaced, hafter]⟩
  by_cases hand : "AND" ∈ words s
  · obtain ⟨before, after, hwords, hbefore, hrule⟩ :=
      ofText_of_mem (c := .and) hand fun h => absurd h (by decide)
    obtain ⟨⟨hl, hlspaced⟩, -, hrspaced⟩ := hsides hwords
    rw [hrule]
    exact .and hlspaced hrspaced (hl.symm ▸ hbefore)
  · by_cases hor : "OR" ∈ words s
    · obtain ⟨before, after, hwords, hbefore, hrule⟩ :=
        ofText_of_mem (c := .or) hor fun _ => hand
      obtain ⟨⟨hl, hlspaced⟩, hr, hrspaced⟩ := hsides hwords
      have hnone : "AND" ∉ before ∧ "AND" ∉ after := by
        rw [hwords, List.mem_append, List.mem_cons] at hand
        exact ⟨fun h => hand (.inl h), fun h => hand (.inr (.inr h))⟩
      rw [hrule]
      exact .or hlspaced hrspaced (hl.symm ▸ ⟨hnone.1, hbefore⟩) (hr.symm ▸ hnone.2)
    · rw [ofText_of_not_mem (Connective.keyword_not_mem hand hor)]
      exact .operand hand hor

/-- An operator over two operands is read back when it is split where it was joined. -/
theorem ofText_text_operator {c : Connective} {l r : String} (hl : IsSpaced l)
    (hr : IsSpaced r) (hleft : c.keyword ∉ words l)
    (hfirst : c = .or → "AND" ∉ words l ∧ "AND" ∉ words r) :
    ofText (operator c (operand l) (operand r)).text = operator c (operand l) (operand r) := by
  have hwords : words (operator c (operand l) (operand r)).text =
      words l ++ c.keyword :: words r := words_text c (operand l) (operand r)
  have hnone : c = .or →
      Connective.and.keyword ∉ words (operator c (operand l) (operand r)).text := by
    intro hc
    obtain ⟨hleft, hright⟩ := hfirst hc
    rw [hwords, hc, List.mem_append, List.mem_cons]
    simp [Connective.keyword, hleft, hright]
  rw [ofText_of_words hwords hleft hnone, hl, hr]

/-- **A rule that meets the conditions is read back** from the text it is written as. -/
theorem ofText_text {rule : Rule} (h : HasText rule) : ofText rule.text = rule := by
  cases h with
  | operand hand hor => exact ofText_of_not_mem (Connective.keyword_not_mem hand hor)
  | and hl hr hand => exact ofText_text_operator hl hr hand fun h => absurd h (by decide)
  | or hl hr hleft hright =>
      exact ofText_text_operator hl hr hleft.2 fun _ => ⟨hleft.1, hright⟩

/-- **The rules that have a text.**  A rule is the rule of some text exactly where it is an
operand without keywords, or an operator over two operands that have single spaces only, and
no keyword that would have been split at before.  It then is the rule of the text that it is
written as. -/
theorem ofText_image (rule : Rule) :
    ((∃ s, ofText s = rule) ↔ HasText rule) ∧ (HasText rule ↔ ofText rule.text = rule) := by
  have hof : (∃ s, ofText s = rule) → HasText rule := by
    intro h
    obtain ⟨s, hs⟩ := h
    exact hs ▸ hasText_ofText s
  exact ⟨⟨hof, fun h => ⟨rule.text, ofText_text h⟩⟩, ofText_text, fun h => hof ⟨_, h⟩⟩

/-- Sides may be empty, and keywords may stand behind the first one. -/
example : HasText (operator .and (operand "a > 1 OR") (operand "")) ∧
    ofText "a > 1 OR AND " = operator .and (operand "a > 1 OR") (operand "") := by
  exact ⟨.and (by decide) (by decide) (by decide), by decide⟩

end Rule

end RuleEngine
