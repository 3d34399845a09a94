import RuleEngine.Fault
import RuleEngine.Number.Literal
import RuleEngine.Record
import RuleEngine.Text.Words

/-!
# Conditions

A condition compares one field of a record with a literal.  Its text is read as
words, and the first three count: the field, the comparison, the literal.
Whatever follows them is ignored, so a quoted literal with a space in it is cut
at the space.

* `Condition.ofText` — the condition of a text with at least three words;
* `Condition.verdict` — whether a record meets a condition;
* `Condition.ofText_eq_error_iff`, `Condition.verdict_eq_error_iff` — when that
  fails, and of what.

A field that the record lacks meets no condition, and no literal is looked at
for it.  To order a field the literal must be a number, and then the value; a
literal that is none is reported before a value that is none.
-/

namespace RuleEngine

/-- How a condition compares. -/
inductive Comparison where
  | greater
  | less
  /-- the display text of the value is the literal -/
  | equal
  /-- a word that is no comparison; no record meets it -/
  | unsupported
  deriving DecidableEq, Repr

/-- The comparison that a word names. -/
def Comparison.ofWord (word : String) : Comparison :=
  if word = ">" then .greater
  else if word = "<" then .less
  else if word = "==" then .equal
  else .unsupported

/-- The words that ask for an order. -/
theorem Comparison.ofWord_orders_iff {word : String} :
    (ofWord word = .greater ∨ ofWord word = .less) ↔ word = ">" ∨ word = "<" := by
  unfold ofWord
  by_cases hgreater : word = ">"
  · simp [hgreater]
  · by_cases hless : word = "<"
    · simp [hless]
    · by_cases hequal : word = "==" <;> simp [hgreater, hless, hequal]

/-- A comparison of a field with a literal. -/
structure Condition where
  field : String
  comparison : Comparison
  literal : String
  deriving DecidableEq, Repr

namespace Condition

/-- The condition of a text. -/
def ofText (text : String) : Except Fault Condition :=
  match words text with
  | field :: comparison :: literal :: _ => .ok ⟨field, .ofWord comparison, literal⟩
  | _ => .error (.malformedCondition (trimBlanks text))

/-- A literal without the single quotes around it, however many there are. -/
def unquoted (literal : String) : String :=
  String.ofList (trimWhere (· = '\x27') literal.toList)

/-- The order of a field's value against the literal; `none` where they have no
order, one side being not a number. -/
def order (c : Condition) (value : Value) : Except Fault (Option Ordering) :=
  match readLiteral? c.literal with
  | none => .error (.notANumber c.field c.literal)
  | some x =>
      match value with
      | .text s => .error (.notANumber c.field s)
      | value => .ok (value.compareNumber x)

/-- Whether a record meets the condition. -/
def verdict (c : Condition) (record : Record) : Verdict :=
  match record.get? c.field with
  | none => .ok false
  | some value =>
      match c.comparison with
      | .greater => (c.order value).map fun o => o = some .gt
      | .less => (c.order value).map fun o => o = some .lt
      | .equal => .ok (value.display = unquoted c.literal)
      | .unsupported => .ok false

/-- All that a condition sees of a record is the field that it names. -/
theorem verdict_congr (c : Condition) {r s : Record} (h : r.get? c.field = s.get? c.field) :
    c.verdict r = c.verdict s := by
  rw [verdict, verdict, h]

/-- A text has a condition when three words at least stand in it. -/
theorem ofText_eq_ok_iff {text : String} {c : Condition} :
    ofText text = .ok c ↔ ∃ field comparison literal rest,
      words text = field :: comparison :: literal :: rest ∧
        c = ⟨field, .ofWord comparison, literal⟩ := by
  unfold ofText
  split
  · rename_i field comparison literal rest hwords
    constructor
    · intro h
      exact ⟨field, comparison, literal, rest, hwords, (Except.ok.inj h).symm⟩
    · rintro ⟨field', comparison', literal', rest', hwords', rfl⟩
      rw [hwords] at hwords'
      cases hwords'
      rfl
  · rename_i hnot
    constructor
    · intro h
      cases h
    · rintro ⟨field, comparison, literal, rest, hwords, -⟩
      exact absurd hwords (hnot field comparison literal rest)

/-- A text has no condition when fewer words stand in it. -/
theorem ofText_eq_error_iff {text : String} {fault : Fault} :
    ofText text = .error fault ↔
      (words text).length < 3 ∧ fault = .malformedCondition (trimBlanks text) := by
  unfold ofText
  split
  · rename_i field comparison literal rest hwords
    have henough : ¬ (words text).length < 3 := by simp [hwords]
    simp [henough]
  · rename_i hnot
    have hfew : (words text).length < 3 := by
      match hwords : words text with
      | [] | [_] | [_, _] => simp
      | field :: comparison :: literal :: rest =>
          exact absurd hwords (hnot field comparison literal rest)
    simp [hfew, eq_comm]

/-- What stands in the way of an order: the literal, and then the value. -/
theorem order_eq_error_iff {c : Condition} {value : Value} {fault : Fault} :
    c.order value = .error fault ↔
      (readLiteral? c.literal = none ∧ fault = .notANumber c.field c.literal) ∨
      ∃ x s, readLiteral? c.literal = some x ∧ value = .text s ∧
        fault = .notANumber c.field s := by
  unfold order
  cases readLiteral? c.literal with
  | none => simp [eq_comm]
  | some x => cases value <;> simp [eq_comm]

/-- A condition fails on a record when it asks for the order of a field that the
record has, and there is none. -/
theorem verdict_eq_error_iff {c : Condition} {record : Record} {fault : Fault} :
    c.verdict record = .error fault ↔ ∃ value, record.get? c.field = some value ∧
      (c.comparison = .greater ∨ c.comparison = .less) ∧ c.order value = .error fault := by
  unfold verdict
  cases record.get? c.field with
  | none => simp
  | some value =>
      cases hcomparison : c.comparison with
      | greater => cases horder : c.order value <;> simp [Except.map, horder]
      | less => cases horder : c.order value <;> simp [Except.map, horder]
      | equal => simp
      | unsupported => simp

end Condition

/-- Whether a record meets the condition of a text. -/
def verdictOfText (record : Record) (text : String) : Verdict :=
  match Condition.ofText text with
  | .error fault => .error fault
  | .ok condition => condition.verdict record

/-- The verdict of a text with three words is that of its condition. -/
theorem verdictOfText_of_words {record : Record} {text field comparison literal : String}
    {rest : List String} (hwords : words text = field :: comparison :: literal :: rest) :
    verdictOfText record text =
      Condition.verdict ⟨field, .ofWord comparison, literal⟩ record := by
  have hc : Condition.ofText text = .ok ⟨field, .ofWord comparison, literal⟩ :=
    Condition.ofText_eq_ok_iff.mpr ⟨field, comparison, literal, rest, hwords, rfl⟩
  rw [verdictOfText, hc]

end RuleEngine
