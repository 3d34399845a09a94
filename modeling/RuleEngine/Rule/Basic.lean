import RuleEngine.Connective

/-!
# Rules

A rule is a binary tree: its leaves, the **operands**, hold the text of one
condition each, and its inner nodes, the **operators**, join two rules by a
connective.  The text of an operand is kept as it is; it becomes a condition
only when the rule is judged.

* `Rule.conditions` — the texts of the operands, from left to right;
* `Rule.height` — how many nodes the longest path from the root has;
* `Rule.display` — a rule in words.
-/

namespace RuleEngine

/-- A rule. -/
inductive Rule where
  | operand (text : String)
  | operator (connective : Connective) (left right : Rule)
  deriving DecidableEq, Repr

namespace Rule

/-- The rule is a single condition. -/
def isOperand : Rule → Bool
  | operand _ => true
  | operator .. => false

/-- The text of an operand. -/
def condition? : Rule → Option String
  | operand text => some text
  | operator .. => none

/-- The connective of an operator. -/
def connective? : Rule → Option Connective
  | operand _ => none
  | operator c _ _ => some c

/-- The left child of an operator. -/
def left? : Rule → Option Rule
  | operand _ => none
  | operator _ l _ => some l

/-- The right child of an operator. -/
def right? : Rule → Option Rule
  | operand _ => none
  | operator _ _ r => some r

/-- How many nodes there are. -/
def size : Rule → Nat
  | operand _ => 1
  | operator _ l r => l.size + r.size + 1

/-- The texts of the operands, from left to right. -/
def conditions : Rule → List String
  | operand text => [text]
  | operator _ l r => l.conditions ++ r.conditions

/-- How many nodes the longest path from the root to an operand has. -/
def height : Rule → Nat
  | operand _ => 1
  | operator _ l r => 1 + max l.height r.height

/-- A rule in words.  Nothing stands around the children of an operator. -/
def display : Rule → String
  | operand text => "Operand(" ++ text ++ ")"
  | operator c l r =>
      "Operator(" ++ c.keyword ++ ") with left: " ++ l.display ++ " and right: " ++ r.display

/-- There is a node in every rule. -/
theorem size_pos (rule : Rule) : 0 < rule.size := by
  cases rule <;> simp [size]

/-- A rule has one level at least. -/
theorem height_pos (rule : Rule) : 0 < rule.height := by
  cases rule with
  | operand text => exact Nat.one_pos
  | operator c l r => rw [height]; omega

end Rule

end RuleEngine
