/-!
# Connectives

Two verdicts are joined by *and* or by *or*.  In rule text, and wherever a
connective is named, it is one of the two keywords `AND` and `OR`, in capitals.

* `Connective.keyword`, `Connective.ofKeyword?` — to the keyword and back;
* `Connective.ofKeyword?_eq_some_iff` — a connective has one keyword only.
-/

namespace RuleEngine

/-- A connective of two verdicts. -/
inductive Connective where
  | and
  | or
  deriving DecidableEq, Repr

namespace Connective

/-- The connective that is meant where none is named. -/
def standard : Connective := .and

/-- The keyword of a connective. -/
def keyword : Connective → String
  | .and => "AND"
  | .or => "OR"

/-- The connective of a keyword. -/
def ofKeyword? (text : String) : Option Connective :=
  if text = "AND" then some .and else if text = "OR" then some .or else none

/-- What is said of a text that should name a connective and does not. -/
def unknownMessage (text : String) : String := "Unknown logical operator: " ++ text

/-- The connective of two verdicts. -/
def apply : Connective → Bool → Bool → Bool
  | .and, p, q => p && q
  | .or, p, q => p || q

/-- The keywords, and no other texts, name connectives. -/
theorem ofKeyword?_eq_some_iff {text : String} {c : Connective} :
    ofKeyword? text = some c ↔ text = c.keyword := by
  unfold ofKeyword?
  cases c with
  | and => by_cases h : text = "AND" <;> simp [h, keyword]
  | or =>
      by_cases h : text = "AND"
      · simp [h, keyword]
      · by_cases h' : text = "OR" <;> simp [h', keyword]

/-- Where neither keyword is, no connective has one. -/
theorem keyword_not_mem {ws : List String} (hand : "AND" ∉ ws) (hor : "OR" ∉ ws)
    (c : Connective) : c.keyword ∉ ws := by
  cases c with
  | and => exact hand
  | or => exact hor

end Connective

end RuleEngine
