import RuleEngine.Rule.Basic

/-!
# Depth

Rules that are chained together form a tree as deep as their number, so the
height is found by a worklist of nodes with their levels, and not by a descent
that nests as deep as the tree.
-/

namespace RuleEngine

namespace Rule

/-- How many nodes there are below the entries of a worklist. -/
def worklistSize : List (Rule × Nat) → Nat
  | [] => 0
  | (rule, _) :: work => rule.size + worklistSize work

/-- The deepest level among `deepest` and the nodes below the entries of a
worklist, each entry a node with its level.  The last entry added is taken
first. -/
def deepestLevel (deepest : Nat) : List (Rule × Nat) → Nat
  | [] => deepest
  | (operand _, level) :: work => deepestLevel (max deepest level) work
  | (operator _ l r, level) :: work =>
      deepestLevel (max deepest level) ((r, level + 1) :: (l, level + 1) :: work)
termination_by work => worklistSize work
decreasing_by
  · simp [worklistSize, size]
  · simp [worklistSize, size]; omega

/-- The depth of a rule; a single operand has depth one. -/
def depth (rule : Rule) : Nat := deepestLevel 0 [(rule, 1)]

/-- A worklist reaches the deepest of its entries, each counted from its own
level on. -/
theorem deepestLevel_eq (work : List (Rule × Nat)) (deepest : Nat) :
    deepestLevel deepest work =
      work.foldl (fun d entry => max d (entry.2 + entry.1.height - 1)) deepest := by
  fun_induction deepestLevel deepest work with
  | case1 deepest => rfl
  | case2 deepest text level work ih =>
      rw [ih]
      simp [height]
  | case3 deepest c l r level work ih =>
      rw [ih]
      simp only [List.foldl_cons, height]
      congr 1
      omega

/-- **Depth is height.**  The worklist finds the length of the longest path. -/
theorem depth_eq_height (rule : Rule) : rule.depth = rule.height := by
  have hpos := rule.height_pos
  rw [depth, deepestLevel_eq]
  simp only [List.foldl_cons, List.foldl_nil]
  omega

end Rule

end RuleEngine
