import RuleEngine.Rule.Verdict

/-!
# The first fault from the left

A rule is judged as a whole, so a fault in any of its conditions is a fault of
the rule; and it is judged from left to right, so of several faults the one that
stands furthest to the left is reported.  Neither the shape of the tree nor its
connectives have a part in this: only the sequence of conditions has.

* `ConditionFault` — why a single condition has no verdict on a record;
* `Rule.fault?_verdict` — the fault of a rule is the first among those of its
  conditions;
* `Rule.fault_leftmost` — all of this about one rule and one record.
-/

namespace RuleEngine

/-- Why the condition of a text has no verdict on a record. -/
inductive ConditionFault (record : Record) (text : String) : Fault → Prop
  /-- the text has fewer than three words -/
  | tooFewWords (hfew : (words text).length < 3) :
      ConditionFault record text (.malformedCondition (trimBlanks text))
  /-- a field that the record has is ordered against what is no number -/
  | literal {field comparison literal : String} {rest : List String} {value : Value}
      (hwords : words text = field :: comparison :: literal :: rest)
      (horder : comparison = ">" ∨ comparison = "<")
      (hfield : record.get? field = some value)
      (hliteral : readLiteral? literal = none) :
      ConditionFault record text (.notANumber field literal)
  /-- a field that holds a text is ordered against a number -/
  | value {field comparison literal s : String} {rest : List String} {x : Binary64}
      (hwords : words text = field :: comparison :: literal :: rest)
      (horder : comparison = ">" ∨ comparison = "<")
      (hfield : record.get? field = some (.text s))
      (hliteral : readLiteral? literal = some x) :
      ConditionFault record text (.notANumber field s)

section

variable {record : Record} {text : String} {fault : Fault}

/-- The fault of a condition is one of the kinds that a condition may have. -/
theorem ConditionFault.of_verdictOfText (h : verdictOfText record text = .error fault) :
    ConditionFault record text fault := by
  unfold verdictOfText at h
  cases hc : Condition.ofText text with
  | error reason =>
      rw [hc] at h
      obtain ⟨hfew, rfl⟩ := Condition.ofText_eq_error_iff.mp hc
      cases h
      exact .tooFewWords hfew
  | ok c =>
      rw [hc] at h
      obtain ⟨field, comparison, literal, rest, hwords, rfl⟩ :=
        Condition.ofText_eq_ok_iff.mp hc
      obtain ⟨value, hfield, hcomparison, horder⟩ := Condition.verdict_eq_error_iff.mp h
      have hword := Comparison.ofWord_orders_iff.mp hcomparison
      rcases Condition.order_eq_error_iff.mp horder with
        ⟨hliteral, rfl⟩ | ⟨x, s, hliteral, rfl, rfl⟩
      · exact .literal hwords hword hfield hliteral
      · exact .value hwords hword hfield hliteral

/-- Each of these kinds is the fault of its condition. -/
theorem ConditionFault.verdictOfText_eq (h : ConditionFault record text fault) :
    verdictOfText record text = .error fault := by
  cases h with
  | tooFewWords hfew =>
      have hc := Condition.ofText_eq_error_iff.mpr ⟨hfew, rfl⟩
      rw [verdictOfText, hc]
  | literal hwords horder hfield hliteral =>
      rw [verdictOfText_of_words hwords]
      refine Condition.verdict_eq_error_iff.mpr
        ⟨_, hfield, Comparison.ofWord_orders_iff.mpr horder, ?_⟩
      exact Condition.order_eq_error_iff.mpr (.inl ⟨hliteral, rfl⟩)
  | value hwords horder hfield hliteral =>
      rw [verdictOfText_of_words hwords]
      refine Condition.verdict_eq_error_iff.mpr
        ⟨_, hfield, Comparison.ofWord_orders_iff.mpr horder, ?_⟩
      exact Condition.order_eq_error_iff.mpr (.inr ⟨_, _, hliteral, rfl, rfl⟩)

/-- A condition fails of its faults and of nothing else. -/
theorem verdictOfText_eq_error_iff :
    verdictOfText record text = .error fault ↔ ConditionFault record text fault :=
  ⟨.of_verdictOfText, ConditionFault.verdictOfText_eq⟩

/-- A condition has a verdict exactly where it has no fault. -/
theorem fault?_verdictOfText_eq_none_iff :
    (verdictOfText record text).fault? = none ↔
      ∀ reason, ¬ ConditionFault record text reason := by
  simp only [← verdictOfText_eq_error_iff, ← Verdict.fault?_eq_some_iff]
  cases (verdictOfText record text).fault? <;> simp

end

namespace Rule

/-- **The fault of a rule.**  It is the first one that judging the conditions
from left to right meets, and there is none where no condition has one. -/
theorem fault?_verdict (record : Record) (rule : Rule) :
    (rule.verdict record).fault? =
      rule.conditions.findSome? fun text => (verdictOfText record text).fault? := by
  induction rule with
  | operand text =>
      rw [verdict_operand, conditions]
      cases h : verdictOfText record text <;> simp [h, Verdict.fault?]
  | operator c l r ihl ihr =>
      rw [verdict_operator, conditions, List.findSome?_append, ← ihl, ← ihr]
      cases l.verdict record with
      | error fault => rfl
      | ok v => cases r.verdict record <;> rfl

/-- A rule fails of the fault of the first condition that fails. -/
theorem verdict_eq_error_iff_first {record : Record} {rule : Rule} {fault : Fault} :
    rule.verdict record = .error fault ↔
      ∃ before text after, rule.conditions = before ++ text :: after ∧
        (∀ earlier ∈ before, ∀ reason, ¬ ConditionFault record earlier reason) ∧
        ConditionFault record text fault := by
  rw [← Verdict.fault?_eq_some_iff, fault?_verdict, List.findSome?_eq_some_iff]
  simp only [fault?_verdictOfText_eq_none_iff, Verdict.fault?_eq_some_iff,
    verdictOfText_eq_error_iff]
  constructor
  · rintro ⟨before, text, after, hsplit, hfault, hbefore⟩
    exact ⟨before, text, after, hsplit, hbefore, hfault⟩
  · rintro ⟨before, text, after, hsplit, hbefore, hfault⟩
    exact ⟨before, text, after, hsplit, hfault, hbefore⟩

/-- A rule fails exactly when one of its conditions does. -/
theorem verdict_fails_iff {record : Record} {rule : Rule} :
    (∃ fault, rule.verdict record = .error fault) ↔
      ∃ text ∈ rule.conditions, ∃ fault, ConditionFault record text fault := by
  simp only [← verdictOfText_eq_error_iff, ← Verdict.fault?_eq_some_iff, fault?_verdict,
    ← Option.isSome_iff_exists, List.findSome?_isSome_iff]

/-- Rules with the same conditions in the same order share their fault. -/
theorem ok_or_same_fault {rule other : Rule} (record : Record)
    (h : other.conditions = rule.conditions) :
    (∃ v w, rule.verdict record = .ok v ∧ other.verdict record = .ok w) ∨
      ∃ fault, rule.verdict record = .error fault ∧ other.verdict record = .error fault := by
  have hsame : (other.verdict record).fault? = (rule.verdict record).fault? := by
    rw [fault?_verdict, fault?_verdict, h]
  cases hrule : rule.verdict record with
  | ok v =>
      rw [hrule, Verdict.fault?, Verdict.fault?_eq_none_iff] at hsame
      obtain ⟨w, hother⟩ := hsame
      exact .inl ⟨v, w, rfl, hother⟩
  | error fault =>
      rw [hrule, Verdict.fault?, Verdict.fault?_eq_some_iff] at hsame
      exact .inr ⟨fault, rfl, hsame⟩

/-- **The leftmost fault is the fault of the rule.**  A condition alone fails of
the faults listed in `ConditionFault`.  A rule fails exactly when one of its
conditions does, and then of the fault of the first that does.  So rules with
the same conditions in the same order, whatever their shapes and connectives,
all have a verdict or all have the same fault. -/
theorem fault_leftmost (record : Record) (rule : Rule) :
    (∀ text fault, (operand text).verdict record = .error fault ↔
      ConditionFault record text fault) ∧
    ((∃ fault, rule.verdict record = .error fault) ↔
      ∃ text ∈ rule.conditions, ∃ fault, ConditionFault record text fault) ∧
    (∀ fault, rule.verdict record = .error fault ↔
      ∃ before text after, rule.conditions = before ++ text :: after ∧
        (∀ earlier ∈ before, ∀ reason, ¬ ConditionFault record earlier reason) ∧
        ConditionFault record text fault) ∧
    (∀ other : Rule, other.conditions = rule.conditions →
      (∃ v w, rule.verdict record = .ok v ∧ other.verdict record = .ok w) ∨
      ∃ fault, rule.verdict record = .error fault ∧ other.verdict record = .error fault) := by
  refine ⟨?_, verdict_fails_iff, fun fault => verdict_eq_error_iff_first, ?_⟩
  · intro text fault
    rw [verdict_operand]
    exact verdictOfText_eq_error_iff
  · intro other h
    exact ok_or_same_fault record h

end Rule

end RuleEngine
