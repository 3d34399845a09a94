import Mathlib.Order.Bounds.Basic
import RuleEngine.Proofs.Chains
import RuleEngine.Proofs.FirstFault
import RuleEngine.Rule.Nesting

/-!
# The walk that judges a rule

The walk keeps its own list of what is pending, and comes back through it; a fault ends it
wherever it stands.  What it finds is what plain recursion on the tree finds, on every rule:
nothing of the rule is left out, joined with another connective, or judged out of turn.

It goes down left edges by itself and takes a call for each right edge.  A call is over
before the next one on the same spine is made, so the calls that are open at one time are
those of the right edges on one path from the root.  Where every condition has a verdict the
walk comes to all operands, and its calls nest as deep as the path with the most right edges
has them; a fault ends it early, and then they nest less deep or just as deep.

A chain puts each rule but the first on the right of an operator, and the chain before it on
the left.  So a path goes right once to leave the spine of the chain, and once more in the
rule of a text, which has one operator at most.  This is all the nesting there is, however
long the chain is.

* `Rule.verdict_eq_plainVerdict` — the walk, which ends on every rule, gives the verdict of
  the recursion;
* `Rule.Path` — the paths from the root of a rule to its operands;
* `Rule.isGreatest_rightEdges` — the most right edges on one of them;
* `Rule.fst_nestedVerdict` — the counted walk finds the verdict;
* `Rule.snd_nestedVerdict_le`, `Rule.snd_nestedVerdict` — how deep its calls nest;
* `Rule.rightEdges_chain` — right edges in a chain;
* `Rule.nesting_of_walk` — all of this about rules and about chains.
-/

namespace RuleEngine

/-- One of the two edges below an operator. -/
inductive Side where
  | left
  | right
  deriving DecidableEq

namespace Rule

/-! ## The walk and the recursion -/

/-- **The walk and the recursion agree.**  Descending the left spine and coming
back through what is pending gives the verdict of plain recursion: the left
side, then the right side, whatever the left one was, then the connective, and
the first fault instead of it. -/
theorem verdict_eq_plainVerdict (record : Record) (rule : Rule) :
    rule.verdict record = plainVerdict record rule := by
  induction rule with
  | operand text => rw [verdict_operand, plainVerdict]
  | operator c l r ihl ihr => rw [verdict_operator, plainVerdict, ihl, ihr]

/-! ## Paths -/

/-- The edges on the way from the root of a rule to one of its operands. -/
inductive Path : Rule → List Side → Prop
  | operand (text : String) : Path (operand text) []
  | left (c : Connective) {l : Rule} (r : Rule) {sides : List Side} (h : Path l sides) :
      Path (operator c l r) (.left :: sides)
  | right (c : Connective) (l : Rule) {r : Rule} {sides : List Side} (h : Path r sides) :
      Path (operator c l r) (.right :: sides)

/-- No path has more right edges than the most that there are. -/
theorem Path.count_right_le {rule : Rule} {sides : List Side} (h : rule.Path sides) :
    sides.count .right ≤ rule.rightEdges := by
  induction h with
  | operand text => exact Nat.le_refl 0
  | @left c l r sides h ih =>
      rw [List.count_cons_of_ne (by decide), rightEdges]
      exact ih.trans (Nat.le_max_left _ _)
  | @right c l r sides h ih =>
      rw [List.count_cons_self, rightEdges]
      exact (Nat.add_le_add_right ih 1).trans (Nat.le_max_right _ _)

/-- Some path has as many right edges as there are at most. -/
theorem exists_path (rule : Rule) :
    ∃ sides, rule.Path sides ∧ sides.count .right = rule.rightEdges := by
  induction rule with
  | operand text => exact ⟨[], .operand text, rfl⟩
  | operator c l r ihl ihr =>
      -- the path goes on into the child that has the more right edges below it
      rcases Nat.le_total (r.rightEdges + 1) l.rightEdges with hle | hle
      · obtain ⟨sides, hpath, hcount⟩ := ihl
        refine ⟨.left :: sides, .left c r hpath, ?_⟩
        rw [List.count_cons_of_ne (by decide), hcount, rightEdges, Nat.max_eq_left hle]
      · obtain ⟨sides, hpath, hcount⟩ := ihr
        refine ⟨.right :: sides, .right c l hpath, ?_⟩
        rw [List.count_cons_self, hcount, rightEdges, Nat.max_eq_right hle]

/-- **The most right edges on a path.**  Some path has so many, and none has more. -/
theorem isGreatest_rightEdges (rule : Rule) :
    IsGreatest {n | ∃ sides, rule.Path sides ∧ sides.count .right = n} rule.rightEdges := by
  refine ⟨rule.exists_path, ?_⟩
  rintro n ⟨sides, hpath, rfl⟩
  exact hpath.count_right_le

/-! ## The counted walk -/

/-- **The counted walk finds the verdict.** -/
theorem fst_nestedVerdict (record : Record) (rule : Rule) :
    (nestedVerdict record rule).1 = rule.verdict record := by
  induction rule with
  | operand text => rw [nestedVerdict_operand, verdict_operand]
  | operator c l r ihl ihr =>
      simp only [nestedVerdict_operator, verdict_operator, Counted.fst_andThen, Counted.called,
        ihl, ihr]
      rfl

/-- **No more calls are open than there are right edges on a path,** whatever the record
is. -/
theorem snd_nestedVerdict_le (record : Record) (rule : Rule) :
    (nestedVerdict record rule).2 ≤ rule.rightEdges := by
  induction rule with
  | operand text => rw [nestedVerdict_operand, rightEdges]
  | operator c l r ihl ihr =>
      rw [nestedVerdict_operator, rightEdges]
      refine Counted.snd_andThen_le ihl fun v => ?_
      have hright : (Counted.called (nestedVerdict record r)).2 ≤ r.rightEdges + 1 :=
        Nat.add_le_add_right ihr 1
      exact Counted.snd_andThen_le (n := 0) hright fun w => Nat.le_refl 0

/-- A rule has a verdict where all of its conditions have one. -/
theorem exists_verdict {record : Record} {rule : Rule}
    (h : ∀ text ∈ rule.conditions, ∃ v, verdictOfText record text = .ok v) :
    ∃ v, rule.verdict record = .ok v := by
  rw [← Verdict.fault?_eq_none_iff, fault?_verdict, List.findSome?_eq_none_iff]
  intro text htext
  exact Verdict.fault?_eq_none_iff.mpr (h text htext)

/-- **Without a fault the walk nests as deep as the right edges do.**  It comes to every
operand, so none of the right edges is left out. -/
theorem snd_nestedVerdict {record : Record} {rule : Rule}
    (h : ∀ text ∈ rule.conditions, ∃ v, verdictOfText record text = .ok v) :
    (nestedVerdict record rule).2 = rule.rightEdges := by
  induction rule with
  | operand text => rw [nestedVerdict_operand, rightEdges]
  | operator c l r ihl ihr =>
      rw [conditions, List.forall_mem_append] at h
      obtain ⟨v, hv⟩ := exists_verdict h.1
      obtain ⟨w, hw⟩ := exists_verdict h.2
      rw [← fst_nestedVerdict] at hv hw
      have hright : (Counted.called (nestedVerdict record r)).1 = .ok w := hw
      rw [nestedVerdict_operator, Counted.snd_andThen hv, Counted.snd_andThen hright, ihl h.1,
        Counted.called, ihr h.2, rightEdges, Nat.max_zero]

/-! ## Chains -/

/-- A path has fewer right edges than nodes. -/
theorem rightEdges_lt_height (rule : Rule) : rule.rightEdges < rule.height := by
  induction rule with
  | operand text => exact Nat.one_pos
  | operator c l r ihl ihr =>
      rw [rightEdges, height]
      omega

/-- The rule of a text has one right edge at most. -/
theorem rightEdges_ofText_le (text : String) : (ofText text).rightEdges ≤ 1 :=
  Nat.le_of_lt_succ ((rightEdges_lt_height _).trans_le (height_ofText_le text))

/-- **Chaining further texts to a rule adds no right edges** but those to the texts. -/
theorem rightEdges_chainFrom (c : Connective) {first : Rule} (h : first.rightEdges ≤ 2)
    (texts : List String) : (chainFrom c first texts).rightEdges ≤ 2 := by
  induction texts generalizing first with
  | nil => exact h
  | cons text texts ih =>
      have hright := rightEdges_ofText_le text
      have hstep : (operator c first (ofText text)).rightEdges ≤ 2 := by
        rw [rightEdges]
        omega
      exact ih hstep

/-- **A chain has no path with more than two right edges.** -/
theorem rightEdges_chain {c : Connective} {texts : List String} {chain : Rule}
    (h : chain? c texts = some chain) : chain.rightEdges ≤ 2 := by
  cases texts with
  | nil => cases h
  | cons text rest =>
      cases h
      exact rightEdges_chainFrom c ((rightEdges_ofText_le text).trans (by decide)) rest

/-- **How deep the walk nests.**  On no path from the root of a chain are there more than two
right edges, and the walk that judges a chain never nests more than two calls, however many
rules it has and whatever the record is.  For any rule the counted walk finds its verdict;
its calls nest as deep as the path with the most right edges has them if all conditions have
verdicts on the record, and otherwise no deeper. -/
theorem nesting_of_walk :
    (∀ (c : Connective) (texts : List String) (chain : Rule), chain? c texts = some chain →
      (∀ sides, chain.Path sides → sides.count .right ≤ 2) ∧
      ∀ record, (nestedVerdict record chain).2 ≤ 2) ∧
    ∀ (record : Record) (rule : Rule),
      (nestedVerdict record rule).1 = rule.verdict record ∧
      IsGreatest {n | ∃ sides, rule.Path sides ∧ sides.count .right = n} rule.rightEdges ∧
      (nestedVerdict record rule).2 ≤ rule.rightEdges ∧
      ((∀ text ∈ rule.conditions, ∃ v, verdictOfText record text = .ok v) →
        (nestedVerdict record rule).2 = rule.rightEdges) := by
  constructor
  · intro c texts chain hchain
    have htwo := rightEdges_chain hchain
    exact ⟨fun sides hpath => hpath.count_right_le.trans htwo,
      fun record => (snd_nestedVerdict_le record chain).trans htwo⟩
  · intro record rule
    exact ⟨fst_nestedVerdict record rule, rule.isGreatest_rightEdges,
      snd_nestedVerdict_le record rule, snd_nestedVerdict⟩

/-- A chain of three rules, the last one with a keyword, nests two calls. -/
theorem nesting_of_walk_keyword :
    ∃ chain, chain? .or ["a == 'x'", "b > 1", "c < 2 AND a == 'y'"] = some chain ∧
      (∀ sides, chain.Path sides → sides.count .right ≤ 2) ∧
      (∀ text ∈ chain.conditions,
        ∃ v, verdictOfText (Record.empty.insert "a" (.text "x")) text = .ok v) ∧
      (nestedVerdict (Record.empty.insert "a" (.text "x")) chain).2 = 2 := by
  let record := Record.empty.insert "a" (.text "x")
  let chain := operator .or (operator .or (operand "a == 'x'") (operand "b > 1"))
    (operator .and (operand "c < 2") (operand "a == 'y'"))
  have hchain : chain? .or ["a == 'x'", "b > 1", "c < 2 AND a == 'y'"] = some chain := by decide
  have hok : ∀ text ∈ chain.conditions, ∃ v, verdictOfText record text = .ok v := by
    simp only [chain, conditions, List.cons_append, List.nil_append, List.forall_mem_cons]
    exact ⟨⟨true, by decide⟩, ⟨false, by decide⟩, ⟨false, by decide⟩, ⟨false, by decide⟩,
      List.forall_mem_nil _⟩
  obtain ⟨hpaths, -⟩ := nesting_of_walk.1 _ _ chain hchain
  obtain ⟨-, -, -, hexact⟩ := nesting_of_walk.2 record chain
  exact ⟨chain, hchain, hpaths, hok, hexact hok⟩

/-- A fault on the left comes before the call for the right child. -/
example : (nestedVerdict .empty (operator .or (operand "a") (operand "b"))).2 = 0 := by
  rw [nestedVerdict_operator, nestedVerdict_operand]
  rfl

end Rule

end RuleEngine
