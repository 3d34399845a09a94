import RuleEngine.Text.Quoted

/-!
# Faults

Why a rule has no verdict on a record.  Reading a rule never fails: all faults
arise when it is judged.
-/

namespace RuleEngine

/-- The reasons for which a rule has no verdict. -/
inductive Fault where
  /-- a condition has fewer than three words; `text` is the condition, trimmed -/
  | malformedCondition (text : String)
  /-- `field` is ordered against a number, and `value` is none -/
  | notANumber (field value : String)
  /-- there is no rule to judge -/
  | noRules
  deriving DecidableEq, Repr

/-- A fault in words. -/
def Fault.message : Fault → String
  | .malformedCondition text =>
      "Malformed condition: " ++ quoted text ++ " needs a field, an operator and a value"
  | .notANumber field value =>
      "Cannot compare " ++ quoted field ++ " numerically: " ++ quoted value ++
        " is not a number"
  | .noRules => "Invalid argument: cannot evaluate an empty rule combination"

instance : ToString Fault := ⟨Fault.message⟩

/-- A verdict, or the fault for which there is none. -/
abbrev Verdict := Except Fault Bool

namespace Verdict

/-- The fault for which there is no verdict. -/
def fault? : Verdict → Option Fault
  | .ok _ => none
  | .error fault => some fault

/-- The verdict is there and it is true. -/
def holds : Verdict → Bool
  | .ok v => v
  | .error _ => false

/-- There is no fault exactly where there is a verdict. -/
theorem fault?_eq_none_iff {v : Verdict} : v.fault? = none ↔ ∃ b, v = .ok b := by
  cases v <;> simp [fault?]

/-- A fault stands in place of the verdict. -/
theorem fault?_eq_some_iff {v : Verdict} {fault : Fault} :
    v.fault? = some fault ↔ v = .error fault := by
  cases v <;> simp [fault?]

end Verdict

end RuleEngine
