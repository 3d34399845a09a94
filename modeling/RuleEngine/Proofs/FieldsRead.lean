import RuleEngine.Proofs.RulesOfTexts
import RuleEngine.Proofs.WordsRead

/-!
# The fields that a rule reads

A condition reads one field of a record: the one that its first word names, and none if its
text has too few words.  The other words may be names of fields too, as literals or behind
the words that count, and are never looked up.  So a rule reads the fields of its conditions,
and two records that agree on these are the same to it, in its verdicts and in its faults.

The rule of a text has two conditions at most, so whatever its text says, two fields at most
are read, and any other field may be written, written over or taken away.

* `Rule.fieldsRead` — the fields that a rule reads;
* `Rule.verdict_congr` — records that agree on them;
* `Rule.length_fieldsRead_ofText` — the rule of a text reads two at most;
* `Rule.verdict_of_fields_read` — what else is in a record is nothing to a rule.
-/

namespace RuleEngine

/-! ## Records without a field -/

/-- The record without one of its fields. -/
def Record.erase (record : Record) (name : String) : Record where
  fields := record.fields.filter fun f => f.1 ≠ name
  ascending := record.ascending.filter _

/-- A field that is taken away is not there, and the others stay. -/
theorem Record.get?_erase (record : Record) (name m : String) :
    (record.erase name).get? m = if m = name then none else record.get? m := by
  unfold erase get?
  dsimp only
  induction record.fields with
  | nil => simp [lookupField]
  | cons f rest ih =>
      obtain ⟨field, value⟩ := f
      by_cases hname : field = name
      · rw [List.filter_cons_of_neg (by simpa using hname), ih, lookupField, hname]
        by_cases hm : m = name <;> simp [hm]
      · rw [List.filter_cons_of_pos (by simpa using hname), lookupField, lookupField, ih]
        by_cases hm : m = field
        · simp [hm, hname]
        · simp [hm]

/-! ## Fields that are read -/

/-- The field that the condition of a text reads: the first of its words, if there are three
at least. -/
def fieldRead? (text : String) : Option String :=
  if 3 ≤ (words text).length then (words text).head? else none

/-- Records that agree on the field of a condition are the same to it. -/
theorem verdictOfText_of_field {text : String} {r s : Record}
    (h : ∀ field ∈ fieldRead? text, r.get? field = s.get? field) :
    verdictOfText r text = verdictOfText s text := by
  by_cases hmany : 3 ≤ (words text).length
  · obtain ⟨field, comparison, literal, rest, hwords⟩ := exists_three_words hmany
    have hread : fieldRead? text = some field := by rw [fieldRead?, if_pos hmany, hwords]; rfl
    rw [verdictOfText_of_words hwords, verdictOfText_of_words hwords]
    exact Condition.verdict_congr _ (h field hread)
  · rw [verdictOfText_of_few_words r (by omega), verdictOfText_of_few_words s (by omega)]

namespace Rule

/-- The fields that a rule reads, those of its conditions from left to right. -/
def fieldsRead (rule : Rule) : List String := rule.conditions.filterMap fieldRead?

/-- An operator reads the fields of both sides. -/
theorem fieldsRead_operator (c : Connective) (l r : Rule) :
    (operator c l r).fieldsRead = l.fieldsRead ++ r.fieldsRead := by
  rw [fieldsRead, conditions, List.filterMap_append]
  rfl

/-- **Records that agree on the fields of a rule are the same to it.** -/
theorem verdict_congr {rule : Rule} {r s : Record}
    (h : ∀ field ∈ rule.fieldsRead, r.get? field = s.get? field) :
    rule.verdict r = rule.verdict s := by
  induction rule with
  | operand text =>
      rw [verdict_operand, verdict_operand]
      apply verdictOfText_of_field
      intro field hfield
      exact h field (List.mem_filterMap.mpr ⟨text, List.mem_singleton_self text, hfield⟩)
  | operator c left right ihl ihr =>
      rw [fieldsRead_operator, List.forall_mem_append] at h
      rw [verdict_operator, verdict_operator, ihl h.1, ihr h.2]

/-- A rule that has a text has two conditions at most. -/
theorem HasText.length_conditions_le {rule : Rule} (h : HasText rule) :
    rule.conditions.length ≤ 2 := by
  cases h with
  | operand => simp [conditions]
  | and => simp [conditions]
  | or => simp [conditions]

/-- **The rule of a text reads two fields at most.** -/
theorem length_fieldsRead_ofText (text : String) : (ofText text).fieldsRead.length ≤ 2 :=
  (List.length_filterMap_le _ _).trans (hasText_ofText text).length_conditions_le

/-- **What a rule does not read is nothing to it.**  Two records that agree, on each first
word of a condition with three words at least, in whether the field is there and in its
value, give a rule the same verdict or the same fault.  The rule of a text reads two fields
at most; any other field, whatever else in the text it may be named by, can be written,
written over, or taken away. -/
theorem verdict_of_fields_read :
    (∀ (rule : Rule) (r s : Record),
      (∀ field ∈ rule.fieldsRead, r.get? field = s.get? field) →
      rule.verdict r = rule.verdict s) ∧
    ∀ text : String, (ofText text).fieldsRead.length ≤ 2 ∧
      ∀ (record : Record) (name : String), name ∉ (ofText text).fieldsRead →
        (∀ value, (ofText text).verdict (record.insert name value) =
          (ofText text).verdict record) ∧
        (ofText text).verdict (record.erase name) = (ofText text).verdict record := by
  refine ⟨fun rule r s h => verdict_congr h, fun text => ⟨length_fieldsRead_ofText text, ?_⟩⟩
  intro record name hname
  have hother : ∀ field ∈ (ofText text).fieldsRead, field ≠ name := by
    intro field hfield heq
    exact hname (heq ▸ hfield)
  constructor
  · intro value
    apply verdict_congr
    intro field hfield
    rw [Record.get?_insert, if_neg (hother field hfield)]
  · apply verdict_congr
    intro field hfield
    rw [Record.get?_erase, if_neg (hother field hfield)]

/-- Literals, and words behind a condition, may be names of fields, and are not read. -/
example : (ofText "a > b c AND c == d AND e < 5").fieldsRead = ["a", "c"] := by decide

end Rule

end RuleEngine
