import RuleEngine.Proofs.FirstFault
import RuleEngine.Proofs.WordsRead

/-!
# Malformed rules

A condition with too few words has the same fault on every record, for its words are counted
before the record is looked at.  A condition with enough words never has that fault, and on
the record without fields it has none: no field is there to be compared, so it is false.
Hence the record without fields shows whether a rule is malformed.  On it a rule is false
unless one of its conditions has too few words, and then it fails at the first of these.

On another record the rule then fails as well, at that condition or further to the left: a
condition that has enough words may compare, on this record, what cannot be compared.  Which
of the conditions is the first malformed one is the same on all records.

* `Rule.FailsAt` — a rule fails at one of its conditions;
* `Rule.failsAt_of_fault`, `Rule.exists_failsAt` — that condition is the first with a fault;
* `verdictOfText_malformed_iff`, `verdictOfText_empty` — a single condition;
* `Rule.verdict_empty_decides` — what the record without fields says of all others.
-/

namespace RuleEngine

/-- A rule fails at one of its conditions: those before it have verdicts on the record, it
has the fault, and the fault is that of the rule. -/
structure Rule.FailsAt (rule : Rule) (record : Record) (before : List String) (text : String)
    (fault : Fault) : Prop where
  stands : ∃ after, rule.conditions = before ++ text :: after
  earlier : ∀ e ∈ before, ∃ v, verdictOfText record e = .ok v
  here : verdictOfText record text = .error fault
  whole : rule.verdict record = .error fault

section

variable {record : Record} {text : String}

/-! ## Conditions -/

/-- **Too few words are too few on every record,** and the fault is only ever of these. -/
theorem verdictOfText_malformed_iff {m : String} :
    verdictOfText record text = .error (.malformedCondition m) ↔
      (words text).length < 3 ∧ m = trimBlanks text := by
  rw [verdictOfText_eq_error_iff]
  constructor
  · intro h
    cases h with
    | tooFewWords hfew => exact ⟨hfew, rfl⟩
  · intro h
    obtain ⟨hfew, rfl⟩ := h
    exact .tooFewWords hfew

/-- A condition that has a verdict on some record is not malformed. -/
theorem many_words_of_ok {v : Bool} (h : verdictOfText record text = .ok v) :
    3 ≤ (words text).length := by
  by_contra hfew
  rw [verdictOfText_of_few_words record (by omega)] at h
  cases h

/-- A condition with enough words fails of a comparison if it fails at all. -/
theorem exists_notANumber {fault : Fault} (hmany : 3 ≤ (words text).length)
    (h : verdictOfText record text = .error fault) :
    ∃ field value, fault = .notANumber field value := by
  cases verdictOfText_eq_error_iff.mp h with
  | tooFewWords hfew => omega
  | literal => exact ⟨_, _, rfl⟩
  | value => exact ⟨_, _, rfl⟩

/-- On the record without fields a condition with enough words is false. -/
theorem verdictOfText_empty (hmany : 3 ≤ (words text).length) :
    verdictOfText .empty text = .ok false := by
  obtain ⟨field, comparison, literal, rest, hwords⟩ := exists_three_words hmany
  rw [verdictOfText_of_words hwords, Condition.verdict, Record.get?_empty]

namespace Rule

variable {rule : Rule} {before after : List String} {fault : Fault}

/-! ## The condition that fails -/

/-- The first condition with a fault is where the rule fails. -/
theorem failsAt_of_fault (hconditions : rule.conditions = before ++ text :: after)
    (hearlier : ∀ e ∈ before, (verdictOfText record e).fault? = none)
    (hhere : verdictOfText record text = .error fault) :
    rule.FailsAt record before text fault where
  stands := ⟨after, hconditions⟩
  earlier := fun e he => Verdict.fault?_eq_none_iff.mp (hearlier e he)
  here := hhere
  whole := verdict_eq_error_iff_first.mpr ⟨before, text, after, hconditions,
    fun e he => fault?_verdictOfText_eq_none_iff.mp (hearlier e he), .of_verdictOfText hhere⟩

/-- A rule that fails does so at one of its conditions. -/
theorem exists_failsAt (h : rule.verdict record = .error fault) :
    ∃ before text, rule.FailsAt record before text fault := by
  obtain ⟨before, text, after, hconditions, hearlier, hfault⟩ :=
    verdict_eq_error_iff_first.mp h
  have hnone : ∀ e ∈ before, (verdictOfText record e).fault? = none :=
    fun e he => fault?_verdictOfText_eq_none_iff.mpr (hearlier e he)
  exact ⟨before, text, failsAt_of_fault hconditions hnone hfault.verdictOfText_eq⟩

/-- **Where a rule is malformed on one record, it is malformed on the record without
fields.** -/
theorem FailsAt.empty {m : String} (h : rule.FailsAt record before text (.malformedCondition m)) :
    rule.FailsAt .empty before text (.malformedCondition m) := by
  obtain ⟨after, hconditions⟩ := h.stands
  refine failsAt_of_fault hconditions ?_ ?_
  · intro e he
    obtain ⟨v, hv⟩ := h.earlier e he
    rw [verdictOfText_empty (many_words_of_ok hv)]
    rfl
  · exact verdictOfText_malformed_iff.mpr (verdictOfText_malformed_iff.mp h.here)

/-- **A rule that is malformed on the record without fields fails on every record:** at the
same condition, or at one before it, which then compares what is no number. -/
theorem FailsAt.of_empty {m : String}
    (h : rule.FailsAt .empty before text (.malformedCondition m)) (record : Record) :
    rule.FailsAt record before text (.malformedCondition m) ∨
      ∃ front leaf field value, front.length < before.length ∧
        rule.FailsAt record front leaf (.notANumber field value) := by
  obtain ⟨after, hconditions⟩ := h.stands
  have hhere : verdictOfText record text = .error (.malformedCondition m) :=
    verdictOfText_malformed_iff.mpr (verdictOfText_malformed_iff.mp h.here)
  cases hfirst : before.findSome? fun e => (verdictOfText record e).fault? with
  | none =>
      left
      exact failsAt_of_fault hconditions (List.findSome?_eq_none_iff.mp hfirst) hhere
  | some fault =>
      right
      obtain ⟨front, leaf, rest, hsplit, hleaf, hfront⟩ := List.findSome?_eq_some_iff.mp hfirst
      rw [Verdict.fault?_eq_some_iff] at hleaf
      have hmem : leaf ∈ before := by simp [hsplit]
      -- before the malformed condition there are words enough
      obtain ⟨v, hv⟩ := h.earlier leaf hmem
      obtain ⟨field, value, rfl⟩ := exists_notANumber (many_words_of_ok hv) hleaf
      have hleft : rule.conditions = front ++ leaf :: (rest ++ text :: after) := by
        rw [hconditions, hsplit, List.append_assoc, List.cons_append]
      refine ⟨front, leaf, field, value, ?_, failsAt_of_fault hleft hfront hleaf⟩
      rw [hsplit, List.length_append, List.length_cons]
      omega

/-! ## The record without fields -/

/-- On the record without fields every rule is false or malformed: conditions that are all
false make no rule true, whatever its connectives are. -/
theorem verdict_empty (rule : Rule) :
    rule.verdict .empty = .ok false ∨
      ∃ m, rule.verdict .empty = .error (.malformedCondition m) := by
  induction rule with
  | operand text =>
      rw [verdict_operand]
      by_cases hmany : 3 ≤ (words text).length
      · exact .inl (verdictOfText_empty hmany)
      · exact .inr ⟨_, verdictOfText_of_few_words _ (by omega)⟩
  | operator c l r ihl ihr =>
      rw [verdict_operator]
      rcases ihl with hl | ⟨m, hl⟩
      · rcases ihr with hr | ⟨m, hr⟩
        · left
          rw [hl, hr]
          cases c
          all_goals rfl
        · exact .inr ⟨m, by rw [hl, hr]; rfl⟩
      · exact .inr ⟨m, by rw [hl]; rfl⟩

/-- **The record without fields decides whether a rule is malformed.**  On it a rule is false
or malformed.  If it is false there, it is malformed on no record.  If it is malformed there,
at one of its conditions, then on every record it fails: at that condition, of the same
fault, or at a condition strictly to the left, of a comparison with what is no number.  And
where a rule is malformed on any record, it is malformed there on the record without
fields. -/
theorem verdict_empty_decides (rule : Rule) :
    (rule.verdict .empty = .ok false ∨
      ∃ m, rule.verdict .empty = .error (.malformedCondition m)) ∧
    (rule.verdict .empty = .ok false →
      ∀ record m, rule.verdict record ≠ .error (.malformedCondition m)) ∧
    (∀ m, rule.verdict .empty = .error (.malformedCondition m) →
      ∃ before text, rule.FailsAt .empty before text (.malformedCondition m) ∧
        ∀ record, rule.FailsAt record before text (.malformedCondition m) ∨
          ∃ front leaf field value, front.length < before.length ∧
            rule.FailsAt record front leaf (.notANumber field value)) ∧
    (∀ record before text m, rule.FailsAt record before text (.malformedCondition m) →
      rule.FailsAt .empty before text (.malformedCondition m)) := by
  refine ⟨verdict_empty rule, ?_, ?_, fun record before text m h => h.empty⟩
  · intro hfalse record m hmalformed
    obtain ⟨before, text, hfails⟩ := exists_failsAt hmalformed
    have hwhole := hfails.empty.whole
    rw [hfalse] at hwhole
    cases hwhole
  · intro m hmalformed
    obtain ⟨before, text, hfails⟩ := exists_failsAt hmalformed
    exact ⟨before, text, hfails, hfails.of_empty⟩

/-- A fault to the left hides the malformed condition, and it is still there. -/
example : (operator .or (operand "a > b") (operand "c")).verdict .empty =
      .error (.malformedCondition "c") ∧
    (operator .or (operand "a > b") (operand "c")).verdict
        (Record.empty.insert "a" (.text "x")) = .error (.notANumber "a" "b") := by
  simp only [verdict_operator, verdict_operand]
  exact ⟨rfl, rfl⟩

end Rule

end

end RuleEngine
