import RuleEngine.Rule.Depth
import RuleEngine.Rule.Split
import RuleEngine.Rule.Verdict

/-!
# Chains

A chain is built from the left, one operator above the other, and judged from the foot of
that spine upwards.  Its verdict says nothing of this: it is the connective of the verdicts
of the single rules, all of them, in the order of the list, and the first fault among them
instead where there is one.

Its depth does.  The rule of a text is an operand, or an operator over two of them where the
text has a keyword; so it has one level or two.  The foot of the spine is the operator over
the first two rules.  From there on every operator has the chain so far on its left, of two
levels at least, and on its right a rule of two levels at most.  So the right side never
decides, and the chain gets one level deeper with each rule, whatever keywords the rule has.
Only at the foot can a keyword be seen: it adds one level to the whole chain, once.

* `Connective.joined` — one verdict out of a list of them;
* `Rule.verdict_chainFrom` — a chain is judged like its list of rules;
* `Rule.verdictOf?_chain?` — the same for any list, the empty one included;
* `HasKeyword` — a keyword is among the words of a text;
* `Rule.height_ofText` — how high the rule of a text is;
* `Rule.height_chainFrom` — a chain from two levels on;
* `Rule.height_chain` — a chain from its foot on;
* `Rule.depth_chain?` — the worklist finds the height of every rule, and what that is for a
  chain.
-/

namespace RuleEngine

/-! ## Verdicts -/

/-- One verdict out of several: the first fault among them, and where there is
none, whether all of them are true, or some of them. -/
def Connective.joined (c : Connective) (verdicts : List Verdict) : Verdict :=
  match verdicts.findSome? Verdict.fault? with
  | some fault => .error fault
  | none =>
      .ok <| match c with
        | .and => verdicts.all Verdict.holds
        | .or => verdicts.any Verdict.holds

namespace Connective

/-- A verdict without a fault is put to the join of those behind it. -/
theorem joined_ok_cons (c : Connective) (p : Bool) (verdicts : List Verdict) :
    c.joined (.ok p :: verdicts) = (c.joined verdicts).map (c.apply p) := by
  have hfault : (Except.ok p :: verdicts : List Verdict).findSome? Verdict.fault? =
      verdicts.findSome? Verdict.fault? := rfl
  unfold joined
  rw [hfault]
  cases verdicts.findSome? Verdict.fault? with
  | some fault => rfl
  | none => cases c <;> rfl

/-- One verdict by itself is its own join. -/
theorem joined_singleton (c : Connective) (v : Verdict) : c.joined [v] = v := by
  cases v with
  | error fault => rfl
  | ok p => cases c <;> cases p <;> rfl

theorem apply_assoc (c : Connective) (p q r : Bool) :
    c.apply (c.apply p q) r = c.apply p (c.apply q r) := by
  cases c with
  | and => exact Bool.and_assoc p q r
  | or => exact Bool.or_assoc p q r

/-- The first two verdicts of a list may be joined beforehand. -/
theorem joined_cons_cons (c : Connective) (v w : Verdict) (verdicts : List Verdict) :
    c.joined (v :: w :: verdicts) =
      c.joined ((v >>= fun p => w >>= fun q => pure (c.apply p q)) :: verdicts) := by
  cases v with
  | error fault => rfl
  | ok p =>
      cases w with
      | error fault => rfl
      | ok q =>
          change c.joined (.ok p :: .ok q :: verdicts) =
            c.joined (.ok (c.apply p q) :: verdicts)
          rw [joined_ok_cons, joined_ok_cons, joined_ok_cons]
          cases c.joined verdicts with
          | error fault => rfl
          | ok r =>
              show Except.ok (c.apply p (c.apply q r)) = Except.ok (c.apply (c.apply p q) r)
              rw [apply_assoc]

end Connective

namespace Rule

/-- Chaining further texts to a rule joins their verdicts to its own. -/
theorem verdict_chainFrom (record : Record) (c : Connective) (first : Rule)
    (texts : List String) :
    (chainFrom c first texts).verdict record =
      c.joined (first.verdict record ::
        texts.map fun text => (ofText text).verdict record) := by
  -- along the list, for any chain so far: the next text goes into it
  induction texts generalizing first with
  | nil => exact (c.joined_singleton _).symm
  | cons text rest ih =>
      calc (chainFrom c first (text :: rest)).verdict record
          = (chainFrom c (operator c first (ofText text)) rest).verdict record := rfl
        _ = c.joined ((operator c first (ofText text)).verdict record ::
              rest.map fun text => (ofText text).verdict record) := ih _
        _ = c.joined (first.verdict record :: (ofText text).verdict record ::
              rest.map fun text => (ofText text).verdict record) := by
            rw [c.joined_cons_cons, verdict_operator]

/-- **The verdict of a chain.**  No rules have no verdict.  Otherwise every rule
of the list is judged, in order: the first fault is that of the chain, even
where the verdicts before it would settle the matter; without a fault the chain
holds when all the rules do, or when some rule does. -/
theorem verdictOf?_chain? (record : Record) (c : Connective) (texts : List String) :
    verdictOf? record (chain? c texts) =
      if texts = [] then .error .noRules
      else c.joined (texts.map fun text => (ofText text).verdict record) := by
  cases texts with
  | nil => rfl
  | cons text rest =>
      rw [chain?, verdictOf?, verdict_chainFrom, if_neg (List.cons_ne_nil text rest),
        List.map_cons]

/-- A rule that holds does not hide the fault of the next one. -/
example : verdictOf? (Record.empty.insert "a" (.text "b"))
    (chain? .or ["a == 'b'", "c", "d"]) = .error (.malformedCondition "c") := by cbv

end Rule

/-! ## Depth -/

/-- One of the keywords is among the words of a text. -/
def HasKeyword (text : String) : Prop := "AND" ∈ words text ∨ "OR" ∈ words text

instance (text : String) : Decidable (HasKeyword text) :=
  inferInstanceAs (Decidable (_ ∨ _))

namespace Rule

/-- **The rule of a text has one level,** and a second one where there is a keyword. -/
theorem height_ofText (text : String) :
    (ofText text).height = if HasKeyword text then 2 else 1 := by
  have hsplit {c : Connective} (h : c.keyword ∈ words text)
      (hfirst : c = .or → Connective.and.keyword ∉ words text) : (ofText text).height = 2 := by
    obtain ⟨before, after, -, -, hrule⟩ := ofText_of_mem h hfirst
    rw [hrule]
    rfl
  by_cases hand : "AND" ∈ words text
  · rw [if_pos (.inl hand)]
    exact hsplit (c := .and) hand fun h => absurd h (by decide)
  · by_cases hor : "OR" ∈ words text
    · rw [if_pos (.inr hor)]
      exact hsplit (c := .or) hor fun _ => hand
    · have hnone : ¬ HasKeyword text := not_or.mpr ⟨hand, hor⟩
      rw [if_neg hnone, ofText_of_not_mem (Connective.keyword_not_mem hand hor)]
      rfl

theorem height_ofText_le (text : String) : (ofText text).height ≤ 2 := by
  rw [height_ofText]
  split <;> decide

/-- **From two levels on a chain gets one level deeper with each rule.** -/
theorem height_chainFrom (c : Connective) {first : Rule} (h : 2 ≤ first.height)
    (texts : List String) :
    (chainFrom c first texts).height = first.height + texts.length := by
  induction texts generalizing first with
  | nil => rfl
  | cons text texts ih =>
      have hright := height_ofText_le text
      have hstep : (operator c first (ofText text)).height = first.height + 1 := by
        rw [height]
        omega
      have hrest : (chainFrom c (operator c first (ofText text)) texts).height =
          (operator c first (ofText text)).height + texts.length := ih (by omega)
      rw [chainFrom, List.foldl_cons, ← chainFrom, hrest, hstep, List.length_cons]
      omega

/-- A chain is as high as it is long, and one level higher where its foot has a keyword. -/
theorem height_chain (c : Connective) (first : String) (rest : List String) :
    (chainFrom c (ofText first) rest).height =
      (first :: rest).length +
        if ∃ text ∈ (first :: rest).take 2, HasKeyword text then 1 else 0 := by
  cases rest with
  | nil =>
      rw [chainFrom, List.foldl_nil, height_ofText]
      by_cases hfirst : HasKeyword first <;> simp [hfirst]
  | cons second rest =>
      have hfoot : (operator c (ofText first) (ofText second)).height =
          2 + if HasKeyword first ∨ HasKeyword second then 1 else 0 := by
        rw [height, height_ofText, height_ofText]
        by_cases hfirst : HasKeyword first <;> by_cases hsecond : HasKeyword second <;>
          simp [hfirst, hsecond]
      have htwo : 2 ≤ (operator c (ofText first) (ofText second)).height := by omega
      have hchain := height_chainFrom c htwo rest
      rw [chainFrom, List.foldl_cons, ← chainFrom, hchain, hfoot]
      simp only [List.take_succ_cons, List.take_zero, List.mem_cons, List.not_mem_nil, or_false,
        exists_eq_or_imp, exists_eq_left, List.length_cons]
      omega

/-- **How deep a chain is.**  The depth of a rule, which a worklist finds, is the length of
its longest path.  So a chain of rules, one at least, is as deep as they are many, and one
level deeper where one of the first two has a keyword; what the others are is nothing to
its depth. -/
theorem depth_chain? :
    (∀ rule : Rule, rule.depth = rule.height) ∧
    ∀ (c : Connective) (first : String) (rest : List String), ∃ chain,
      chain? c (first :: rest) = some chain ∧
      chain.depth = (first :: rest).length +
        if ∃ text ∈ (first :: rest).take 2, HasKeyword text then 1 else 0 := by
  refine ⟨depth_eq_height, fun c first rest => ⟨chainFrom c (ofText first) rest, rfl, ?_⟩⟩
  rw [depth_eq_height, height_chain]

/-- A keyword in the second rule counts, and one in the third does not. -/
example : (chain? .or ["a", "b AND c", "d"]).map depth = some 4 ∧
    (chain? .or ["a", "b", "c AND d"]).map depth = some 3 := by cbv

end Rule

end RuleEngine
