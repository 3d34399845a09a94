import RuleEngine.Rule.Basic
import RuleEngine.Text.Words

/-!
# Rules from text

The text of a rule is split once: at its first word `AND`, or, when it has none,
at its first word `OR`.  The words on either side become an operand each, one
space between each two of them, and are not split any further: keywords that
remain stay in the text of the operand.  A text without a keyword is an operand
as it stands, blanks and all.  Every text is the text of a rule.

Several rule texts are chained into one rule from left to right: each operator
has the chain so far on its left and the next rule on its right.  A single rule
is its own chain, and no rules make no chain.

* `Rule.ofText` — the rule of a text;
* `Rule.ofText_of_mem`, `Rule.ofText_of_words`, `Rule.ofText_of_not_mem` — which rule
  that is;
* `Rule.chain?` — the chain of several texts.
-/

namespace RuleEngine

namespace Rule

/-- The operator that a text splits into at the first place of a connective's
keyword among its words. -/
def splitAt? (connective : Connective) (ws : List String) : Option Rule :=
  (splitAtFirst? connective.keyword ws).map fun (before, after) =>
    operator connective (operand (spaced before)) (operand (spaced after))

/-- The rule of a text. -/
def ofText (text : String) : Rule :=
  let ws := words text
  match splitAt? .and ws with
  | some rule => rule
  | none =>
      match splitAt? .or ws with
      | some rule => rule
      | none => operand text

/-- A keyword among the words splits them at its first place. -/
theorem splitAt?_of_mem {c : Connective} {ws : List String} (h : c.keyword ∈ ws) :
    ∃ before after, ws = before ++ c.keyword :: after ∧ c.keyword ∉ before ∧
      splitAt? c ws =
        some (operator c (operand (spaced before)) (operand (spaced after))) := by
  cases hsplit : splitAtFirst? c.keyword ws with
  | none => exact absurd h (splitAtFirst?_eq_none_iff.mp hsplit)
  | some sides =>
      obtain ⟨before, after⟩ := sides
      obtain ⟨hws, hbefore⟩ := append_of_splitAtFirst? hsplit
      refine ⟨before, after, hws, hbefore, ?_⟩
      rw [splitAt?, hsplit]
      rfl

/-- Without the keyword among the words there is no split. -/
theorem splitAt?_of_not_mem {c : Connective} {ws : List String} (h : c.keyword ∉ ws) :
    splitAt? c ws = none := by
  rw [splitAt?, splitAtFirst?_eq_none_iff.mpr h]
  rfl

/-- The rule of a text with a keyword.  The keyword `OR` counts only where `AND`
is not among the words. -/
theorem ofText_of_mem {text : String} {c : Connective} (h : c.keyword ∈ words text)
    (hfirst : c = .or → Connective.and.keyword ∉ words text) :
    ∃ before after, words text = before ++ c.keyword :: after ∧ c.keyword ∉ before ∧
      ofText text = operator c (operand (spaced before)) (operand (spaced after)) := by
  obtain ⟨before, after, hwords, hbefore, hsplit⟩ := splitAt?_of_mem h
  refine ⟨before, after, hwords, hbefore, ?_⟩
  cases c with
  | and => rw [ofText, hsplit]
  | or => rw [ofText, splitAt?_of_not_mem (hfirst rfl), hsplit]

/-- The rule of a text whose words are known, up to the keyword and behind it. -/
theorem ofText_of_words {text : String} {c : Connective} {before after : List String}
    (hwords : words text = before ++ c.keyword :: after) (hbefore : c.keyword ∉ before)
    (hfirst : c = .or → Connective.and.keyword ∉ words text) :
    ofText text = operator c (operand (spaced before)) (operand (spaced after)) := by
  have hsplit : splitAt? c (words text) =
      some (operator c (operand (spaced before)) (operand (spaced after))) := by
    rw [splitAt?, hwords, splitAtFirst?_append hbefore]
    rfl
  cases c with
  | and => rw [ofText, hsplit]
  | or => rw [ofText, splitAt?_of_not_mem (hfirst rfl), hsplit]

/-- The rule of a text without a keyword. -/
theorem ofText_of_not_mem {text : String} (h : ∀ c : Connective, c.keyword ∉ words text) :
    ofText text = operand text := by
  rw [ofText, splitAt?_of_not_mem (h .and), splitAt?_of_not_mem (h .or)]

/-! ## Chains -/

/-- A rule with further rule texts chained to it. -/
def chainFrom (connective : Connective) (first : Rule) (texts : List String) : Rule :=
  texts.foldl (fun chain text => operator connective chain (ofText text)) first

/-- The chain of a list of rule texts. -/
def chain? (connective : Connective) : List String → Option Rule
  | [] => none
  | text :: rest => some (chainFrom connective (ofText text) rest)

end Rule

end RuleEngine
