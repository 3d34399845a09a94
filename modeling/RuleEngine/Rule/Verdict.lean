import RuleEngine.Condition
import RuleEngine.Rule.Basic

/-!
# Verdicts of rules

A rule is judged from left to right, and all of it: both sides of an operator
are judged even when the left one settles the matter, so that a fault anywhere
in the rule is found.  The first fault from the left is the one reported.

Chained rules lean to the left as deep as their number.  The walk therefore
descends the **left spine** of a rule with a list of what is pending, an
operator and its right child for each step down, and comes back through that
list; it nests only where it judges a right child.

* `Rule.verdict` — the walk;
* `Rule.plainVerdict` — the same in plain recursion on the tree, which says what
  a verdict is;
* `Rule.leftSpine_bind_unwind` — the invariant of the walk, for any pending list;
* `Rule.verdict_operand`, `Rule.verdict_operator` — the verdict of a rule from
  those of its children.
-/

namespace RuleEngine

namespace Rule

/-- An operator whose left side is being judged: its connective and its right
child. -/
abbrev Pending := Connective × Rule

/-- How many nodes are pending. -/
def pendingSize : List Pending → Nat
  | [] => 0
  | (_, right) :: rest => right.size + pendingSize rest

/-- Descends the left spine: the text of its operand, and what is pending above
it, the innermost operator first. -/
def leftSpine (pending : List Pending) : Rule → String × List Pending
  | operand text => (text, pending)
  | operator c l r => leftSpine ((c, r) :: pending) l

/-- The nodes pending at the foot of a spine are fewer than those it had. -/
theorem pendingSize_leftSpine (rule : Rule) (pending : List Pending) :
    pendingSize (leftSpine pending rule).2 < rule.size + pendingSize pending := by
  induction rule generalizing pending with
  | operand text => simp [leftSpine, size]
  | operator c l r ihl ihr =>
      have h := ihl ((c, r) :: pending)
      simp only [pendingSize] at h
      simp only [leftSpine, size]
      omega

mutual

/-- The verdict of a rule on a record. -/
def verdict (record : Record) (rule : Rule) : Verdict :=
  let foot := leftSpine [] rule
  verdictOfText record foot.1 >>= unwind record foot.2
termination_by 2 * rule.size
decreasing_by
  have h := pendingSize_leftSpine rule []
  simp only [pendingSize] at h ⊢
  omega

/-- Joins a verdict with those of the right children pending, from the innermost
operator on. -/
def unwind (record : Record) (pending : List Pending) (v : Bool) : Verdict :=
  match pending with
  | [] => pure v
  | (c, right) :: rest => do
      let w ← verdict record right
      unwind record rest (c.apply v w)
termination_by 2 * pendingSize pending + 1
decreasing_by
  · simp only [pendingSize]; omega
  · have h := right.size_pos
    simp only [pendingSize]; omega

end

/-- The verdict of a rule that may be missing. -/
def verdictOf? (record : Record) : Option Rule → Verdict
  | none => .error .noRules
  | some rule => rule.verdict record

/-- The verdict by recursion on the tree: left, then right, then the
connective. -/
def plainVerdict (record : Record) : Rule → Verdict
  | operand text => verdictOfText record text
  | operator c l r => do
      let v ← plainVerdict record l
      let w ← plainVerdict record r
      pure (c.apply v w)

/-- With nothing pending the walk is over. -/
theorem unwind_nil (record : Record) : unwind record [] = pure := by
  funext v
  rw [unwind]

/-- One step back: the innermost right child is judged, joined, and the walk
goes on with what is pending above it. -/
theorem unwind_cons (record : Record) (c : Connective) (right : Rule)
    (rest : List Pending) (v : Bool) :
    unwind record ((c, right) :: rest) v =
      right.verdict record >>= fun w => unwind record rest (c.apply v w) := by
  rw [unwind]

/-- The verdict of an operand is that of its condition. -/
theorem verdict_operand (record : Record) (text : String) :
    (operand text).verdict record = verdictOfText record text := by
  rw [verdict, leftSpine, unwind_nil, bind_pure]

/-- **The walk comes back with the verdict.**  Whatever is pending above a rule,
descending its left spine and coming back gives the verdict of the rule, and
then goes on with what was pending above it. -/
theorem leftSpine_bind_unwind (record : Record) (rule : Rule) (pending : List Pending) :
    (verdictOfText record (leftSpine pending rule).1 >>=
        unwind record (leftSpine pending rule).2) =
      rule.verdict record >>= unwind record pending := by
  induction rule generalizing pending with
  | operand text => rw [leftSpine, verdict_operand]
  | operator c l r ihl _ =>
      -- judged by itself, the rule descends the same spine with nothing above this operator
      have hspine : (operator c l r).verdict record =
          l.verdict record >>= unwind record [(c, r)] := by
        rw [verdict, leftSpine, ihl [(c, r)]]
      rw [leftSpine, ihl ((c, r) :: pending), hspine, bind_assoc]
      congr 1
      funext v
      rw [unwind_cons, unwind_cons, unwind_nil, bind_assoc]
      simp only [pure_bind]

/-- The verdict of an operator: left, then right, then the connective. -/
theorem verdict_operator (record : Record) (c : Connective) (l r : Rule) :
    (operator c l r).verdict record =
      l.verdict record >>= fun v => r.verdict record >>= fun w => pure (c.apply v w) := by
  rw [verdict, leftSpine, leftSpine_bind_unwind record l [(c, r)]]
  congr 1
  funext v
  rw [unwind_cons, unwind_nil]

end Rule

end RuleEngine
