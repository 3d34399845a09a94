import RuleEngine.Rule.Split
import RuleEngine.Rule.Verdict

/-!
# Records with fewer fields

What a rule says of a record it says, or less, of any part of the record.  A field that is
missing meets no condition, so a condition may turn from true to false when fields go, and
never back; both connectives keep this direction.  A fault needs a field too, unless it is
the fault of a text with too few words, which no record can mend.  So taking fields away
makes no new fault.  Nothing of a rule is left unjudged, which is what makes this an
argument: where a rule has a verdict on the whole record, all of its conditions had one.

* `Record.Within` — the fields of one record are fields of another;
* `Verdict.AtMost` — a verdict that claims no more than another;
* `Condition.verdict_atMost`, `Verdict.AtMost.join` — a condition, and an operator;
* `Rule.verdict_of_fewer_fields` — a rule.
-/

namespace RuleEngine

/-- Each field of the first record is a field of the second one, with the same value. -/
def Record.Within (part whole : Record) : Prop :=
  ∀ name value, part.get? name = some value → whole.get? name = some value

/-- A new field leaves those that were there. -/
theorem Record.within_insert {record : Record} {name : String} (h : record.get? name = none)
    (value : Value) : record.Within (record.insert name value) := by
  intro m v hm
  rw [Record.get?_insert]
  by_cases heq : m = name
  · simp [heq, h] at hm
  · rwa [if_neg heq]

namespace Verdict

/-- Where the second verdict is no fault, neither is the first, and it holds only where the
second does. -/
def AtMost (v w : Verdict) : Prop :=
  ∀ q, w = .ok q → ∃ p, v = .ok p ∧ (p = true → q = true)

theorem AtMost.refl (v : Verdict) : v.AtMost v := fun q hq => ⟨q, hq, id⟩

/-- Nothing claims less than the verdict false. -/
theorem AtMost.of_false (w : Verdict) : AtMost (.ok false) w :=
  fun _ _ => ⟨false, rfl, fun h => absurd h Bool.false_ne_true⟩

/-- **Both connectives keep the order of verdicts.** -/
theorem AtMost.join {v w v' w' : Verdict} (c : Connective) (hleft : v.AtMost v')
    (hright : w.AtMost w') :
    AtMost (v >>= fun p => w >>= fun q => pure (c.apply p q))
      (v' >>= fun p => w' >>= fun q => pure (c.apply p q)) := by
  intro q hq
  -- the join has a verdict, so that both of its sides have one
  cases v' with
  | error fault => cases hq
  | ok p' =>
      cases w' with
      | error fault => cases hq
      | ok q' =>
          obtain ⟨p₁, rfl, hp⟩ := hleft p' rfl
          obtain ⟨q₁, rfl, hq₁⟩ := hright q' rfl
          have hjoin : c.apply p' q' = q := Except.ok.inj hq
          refine ⟨c.apply p₁ q₁, rfl, ?_⟩
          rw [← hjoin]
          cases c with
          | and =>
              intro h
              obtain ⟨hl, hr⟩ := Bool.and_eq_true_iff.mp h
              exact Bool.and_eq_true_iff.mpr ⟨hp hl, hq₁ hr⟩
          | or =>
              intro h
              exact Bool.or_eq_true_iff.mpr ((Bool.or_eq_true_iff.mp h).imp hp hq₁)

end Verdict

section

variable {part whole : Record}

/-- A condition sees of a record only whether it has the field, and its value there. -/
theorem Condition.verdict_atMost (c : Condition) (h : part.Within whole) :
    (c.verdict part).AtMost (c.verdict whole) := by
  cases hfield : part.get? c.field with
  | none =>
      have hfalse : c.verdict part = .ok false := by rw [Condition.verdict, hfield]
      rw [hfalse]
      exact .of_false _
  | some value =>
      have hsame : c.verdict part = c.verdict whole :=
        c.verdict_congr (hfield.trans (h _ _ hfield).symm)
      rw [hsame]
      exact .refl _

/-- With fewer fields a condition does not come to hold, nor to fail. -/
theorem verdictOfText_atMost (text : String) (h : part.Within whole) :
    (verdictOfText part text).AtMost (verdictOfText whole text) := by
  cases hc : Condition.ofText text with
  | error fault =>
      intro q hq
      simp [verdictOfText, hc] at hq
  | ok c => simpa [verdictOfText, hc] using c.verdict_atMost h

namespace Rule

/-- **With fewer fields a rule does not come to hold,** nor to fail. -/
theorem verdict_atMost (rule : Rule) (h : part.Within whole) :
    (rule.verdict part).AtMost (rule.verdict whole) := by
  induction rule with
  | operand text =>
      rw [verdict_operand, verdict_operand]
      exact verdictOfText_atMost text h
  | operator c l r ihl ihr =>
      rw [verdict_operator, verdict_operator]
      exact ihl.join c ihr

/-- **Taking fields away makes no fault and no new truth.**  If a rule has a verdict on a
record, it has one on every record whose fields are fields of that one, and there it is
true only if it was true before. -/
theorem verdict_of_fewer_fields (rule : Rule) (h : part.Within whole) {q : Bool}
    (hverdict : rule.verdict whole = .ok q) :
    ∃ p, rule.verdict part = .ok p ∧ (p = true → q = true) :=
  rule.verdict_atMost h q hverdict

/-- A rule that is false of a record with two fields, judged on the record with one of
them. -/
theorem verdict_of_fewer_fields_city :
    (Record.empty.insert "name" (.text "Bo")).Within
        ((Record.empty.insert "name" (.text "Bo")).insert "city" (.text "Rome")) ∧
      (ofText "name == 'Bo' AND city == 'Oslo'").verdict
        ((Record.empty.insert "name" (.text "Bo")).insert "city" (.text "Rome")) = .ok false ∧
      ∃ p, (ofText "name == 'Bo' AND city == 'Oslo'").verdict
        (Record.empty.insert "name" (.text "Bo")) = .ok p ∧ (p = true → false = true) := by
  have hwithin : (Record.empty.insert "name" (.text "Bo")).Within
      ((Record.empty.insert "name" (.text "Bo")).insert "city" (.text "Rome")) :=
    Record.within_insert (by decide) _
  have hfalse : (ofText "name == 'Bo' AND city == 'Oslo'").verdict
      ((Record.empty.insert "name" (.text "Bo")).insert "city" (.text "Rome")) = .ok false := by
    have hrule : ofText "name == 'Bo' AND city == 'Oslo'" =
        operator .and (operand "name == 'Bo'") (operand "city == 'Oslo'") := rfl
    rw [hrule, verdict_operator, verdict_operand, verdict_operand]
    rfl
  exact ⟨hwithin, hfalse, verdict_of_fewer_fields _ hwithin hfalse⟩

end Rule

end

end RuleEngine
