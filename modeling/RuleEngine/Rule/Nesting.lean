import RuleEngine.Rule.Verdict

/-!
# Nesting of the walk

How deep the walk that judges a rule calls itself.  It descends left children
without a call and calls itself for right children only, so what bounds it is
not the depth of the tree but the number of **right edges** on a path.

* `Rule.rightEdges` — the most right edges on a path from the root to an
  operand;
* `Rule.nestedVerdict` — the walk with a count of its nested calls;
* `Rule.leftSpine_andThen_nestedUnwind` — its invariant, for any pending list;
* `Rule.nestedVerdict_operand`, `Rule.nestedVerdict_operator` — what it finds
  and counts in a rule, from what it does in the children.
-/

namespace RuleEngine

/-- What a walk finds, and how deep its calls nest. -/
abbrev Counted := Verdict × Nat

namespace Counted

/-- One walk and then another, which goes on from the verdict of the first and
is left out where that one fails.  The calls of the second are not inside those
of the first, so the deeper of the two counts. -/
def andThen (walk : Counted) (next : Bool → Counted) : Counted :=
  match walk with
  | (.error fault, depth) => (.error fault, depth)
  | (.ok v, depth) => ((next v).1, max depth (next v).2)

/-- A walk that is made by a call. -/
def called (walk : Counted) : Counted := (walk.1, walk.2 + 1)

/-- What two walks find is what the second one finds from the verdict of the first. -/
theorem fst_andThen (walk : Counted) (next : Bool → Counted) :
    (walk.andThen next).1 = walk.1 >>= fun v => (next v).1 := by
  obtain ⟨verdict, depth⟩ := walk
  cases verdict with
  | error fault => rfl
  | ok v => rfl

/-- Where the first walk has a verdict, the second one is made. -/
theorem snd_andThen {walk : Counted} {v : Bool} (h : walk.1 = .ok v)
    (next : Bool → Counted) : (walk.andThen next).2 = max walk.2 (next v).2 := by
  obtain ⟨verdict, depth⟩ := walk
  subst h
  rfl

/-- Two walks together stay within the greater one of their bounds. -/
theorem snd_andThen_le {walk : Counted} {next : Bool → Counted} {m n : Nat}
    (hwalk : walk.2 ≤ m) (hnext : ∀ v, (next v).2 ≤ n) :
    (walk.andThen next).2 ≤ max m n := by
  obtain ⟨verdict, depth⟩ := walk
  cases verdict with
  | error fault => exact Nat.le_trans hwalk (Nat.le_max_left m n)
  | ok v =>
      have hv := hnext v
      simp only [andThen] at hwalk ⊢
      omega

/-- Three walks in a row need no brackets. -/
theorem andThen_assoc (walk : Counted) (next last : Bool → Counted) :
    (walk.andThen next).andThen last = walk.andThen fun v => (next v).andThen last := by
  obtain ⟨verdict, depth⟩ := walk
  cases verdict with
  | error fault => rfl
  | ok v =>
      simp only [andThen]
      obtain ⟨verdict, others⟩ := next v
      cases verdict with
      | error fault => rfl
      | ok w => simp only [Nat.max_assoc]

/-- A verdict that takes no walk adds nothing, before a walk or after it. -/
theorem ok_andThen (v : Bool) (next : Bool → Counted) : andThen (.ok v, 0) next = next v := by
  simp only [andThen, Nat.zero_max]

theorem andThen_ok (walk : Counted) : (walk.andThen fun v => (.ok v, 0)) = walk := by
  obtain ⟨verdict, depth⟩ := walk
  cases verdict with
  | error fault => rfl
  | ok v => simp only [andThen, Nat.max_zero]

end Counted

namespace Rule

/-- The most right edges on a path from the root to an operand. -/
def rightEdges : Rule → Nat
  | operand _ => 0
  | operator _ l r => max l.rightEdges (r.rightEdges + 1)

mutual

/-- The verdict of a rule, and how deep the walk that finds it calls itself. -/
def nestedVerdict (record : Record) (rule : Rule) : Counted :=
  let foot := leftSpine [] rule
  match verdictOfText record foot.1 with
  | .error fault => (.error fault, 0)
  | .ok v => nestedUnwind record foot.2 v
termination_by 2 * rule.size
decreasing_by
  have h := pendingSize_leftSpine rule []
  simp only [pendingSize] at h ⊢
  omega

/-- Comes back through what is pending; each right child is one call, with the
calls inside it. -/
def nestedUnwind (record : Record) (pending : List Pending) (v : Bool) : Counted :=
  match pending with
  | [] => (.ok v, 0)
  | (c, right) :: rest =>
      match nestedVerdict record right with
      | (.error fault, depth) => (.error fault, depth + 1)
      | (.ok w, depth) =>
          let (verdict, others) := nestedUnwind record rest (c.apply v w)
          (verdict, max (depth + 1) others)
termination_by 2 * pendingSize pending + 1
decreasing_by
  · simp only [pendingSize]; omega
  · have h := right.size_pos
    simp only [pendingSize]; omega

end

/-- The walk: down the left spine, and then back through what is pending. -/
theorem nestedVerdict_eq (record : Record) (rule : Rule) :
    nestedVerdict record rule =
      Counted.andThen (verdictOfText record (leftSpine [] rule).1, 0)
        (nestedUnwind record (leftSpine [] rule).2) := by
  rw [nestedVerdict]
  cases verdictOfText record (leftSpine [] rule).1 with
  | error fault => rfl
  | ok v => exact (Counted.ok_andThen v _).symm

theorem nestedUnwind_nil (record : Record) :
    nestedUnwind record [] = fun v => (.ok v, 0) := by
  funext v
  rw [nestedUnwind]

/-- One step back is one call, for the innermost right child. -/
theorem nestedUnwind_cons (record : Record) (c : Connective) (right : Rule)
    (rest : List Pending) (v : Bool) :
    nestedUnwind record ((c, right) :: rest) v =
      (Counted.called (nestedVerdict record right)).andThen fun w =>
        nestedUnwind record rest (c.apply v w) := by
  rw [nestedUnwind]
  obtain ⟨verdict, depth⟩ := nestedVerdict record right
  cases verdict with
  | error fault => rfl
  | ok w => rfl

/-- An operand is judged without a call. -/
theorem nestedVerdict_operand (record : Record) (text : String) :
    nestedVerdict record (operand text) = (verdictOfText record text, 0) := by
  rw [nestedVerdict_eq, leftSpine, nestedUnwind_nil, Counted.andThen_ok]

/-- **The descent takes no call.**  Whatever is pending above a rule, descending
its left spine and coming back finds and counts what the walk does in the rule
by itself, and then in what was pending above it. -/
theorem leftSpine_andThen_nestedUnwind (record : Record) (rule : Rule)
    (pending : List Pending) :
    Counted.andThen (verdictOfText record (leftSpine pending rule).1, 0)
        (nestedUnwind record (leftSpine pending rule).2) =
      (nestedVerdict record rule).andThen (nestedUnwind record pending) := by
  induction rule generalizing pending with
  | operand text => rw [leftSpine, nestedVerdict_operand]
  | operator c l r ihl _ =>
      -- judged by itself, the rule descends the same spine with nothing above this operator
      have hspine : nestedVerdict record (operator c l r) =
          (nestedVerdict record l).andThen (nestedUnwind record [(c, r)]) := by
        rw [nestedVerdict_eq, leftSpine, ihl [(c, r)]]
      rw [leftSpine, ihl ((c, r) :: pending), hspine, Counted.andThen_assoc]
      congr 1
      funext v
      rw [nestedUnwind_cons, nestedUnwind_cons, nestedUnwind_nil, Counted.andThen_assoc]
      simp only [Counted.ok_andThen]

/-- An operator: the left child in the same call, and the right child in one
further in. -/
theorem nestedVerdict_operator (record : Record) (c : Connective) (l r : Rule) :
    nestedVerdict record (operator c l r) =
      (nestedVerdict record l).andThen fun v =>
        (Counted.called (nestedVerdict record r)).andThen fun w => (.ok (c.apply v w), 0) := by
  rw [nestedVerdict_eq, leftSpine, leftSpine_andThen_nestedUnwind record l [(c, r)]]
  congr 1
  funext v
  rw [nestedUnwind_cons, nestedUnwind_nil]

end Rule

end RuleEngine
