import RuleEngine.Proofs.JsonDepth
import RuleEngine.Proofs.SpelledText
import RuleEngine.Rule.Depth
import RuleEngine.Rule.Json
import RuleEngine.Rule.Split

/-!
# Rules written and read back

The JSON of a rule nests as deep as the rule: one object inside another for each
operator on the way to an operand.  Its text has its tokens, which are punctuation and
texts, and all of them may stand in the text of a rule.  What is left of the conditions
of reading is the limit on nesting.  Within it a rule is read back as it was, and beyond
it nothing is, though it was written.

* `Rule.ofJson?_toJson` — the JSON of a rule presents it;
* `Rule.admits_tokens`, `Rule.nesting_tokens` — its tokens, and how deep they nest;
* `Rule.ofJsonText?_of_spelled` — a rule is read from a text by its value;
* `Rule.ofJsonText?_toJson` — the text of a rule, read back;
* `Rule.ofJsonText?_of_depth` — which rules are read back, and that long chains are
  not.
-/

namespace RuleEngine

namespace Rule

/-- **The JSON of a rule presents it,** at the root and below. -/
theorem ofJson?_toJson (rule : Rule) (atRoot : Bool) : ofJson? atRoot rule.toJson = some rule := by
  induction rule generalizing atRoot with
  | operand text => rfl
  | operator c l r ihl ihr =>
      rw [toJson, ofJson?, partsOfMembers, partsOfMembers, partsOfMembers, partsOfMembers,
        partsOfMembers, ihl, ihr]
      cases c <;> rfl

/-! ## The tokens of a rule -/

/-- The token of a text. -/
def textToken (text : String) : Token := .scalar (.string (some text))

/-- The tokens of an operator before those of its left child. -/
def tokensBefore (c : Connective) : List Token :=
  [.openObject, textToken "type", .colon, textToken "operator", .comma, textToken "value", .colon,
    textToken c.keyword, .comma, textToken "left", .colon]

/-- The tokens between the children of an operator. -/
def tokensBetween : List Token := [.comma, textToken "right", .colon]

theorem tokens_operand (text : String) :
    (operand text).toJson.tokens =
      [.openObject, textToken "type", .colon, textToken "operand", .comma, textToken "value",
        .colon, textToken text, .closeObject] := rfl

/-- The tokens of an operator are those of its children, with marks around them that nest
no deeper. -/
theorem tokens_operator (c : Connective) (l r : Rule) :
    (operator c l r).toJson.tokens =
      tokensBefore c ++ (l.toJson.tokens ++ (tokensBetween ++ (r.toJson.tokens ++
        [.closeObject]))) := by
  simp [toJson, Json.tokens, Json.memberTokens, Json.text, Connective.toJson, NodeKind.name,
    tokensBefore, tokensBetween, textToken]

/-- Only what may stand in the text of a rule is in its JSON. -/
theorem admits_tokens (rule : Rule) : ∀ t ∈ rule.toJson.tokens, admits t = true := by
  induction rule with
  | operand text => simp [tokens_operand, textToken, admits]
  | operator c l r ihl ihr =>
      have hbefore : ∀ t ∈ tokensBefore c, admits t = true := by
        simp [tokensBefore, textToken, admits]
      have hbetween : ∀ t ∈ tokensBetween, admits t = true := by
        simp [tokensBetween, textToken, admits]
      have hclose : ∀ t ∈ [Token.closeObject], admits t = true :=
        List.forall_mem_singleton.mpr rfl
      simp only [tokens_operator, List.forall_mem_append]
      exact ⟨hbefore, ihl, hbetween, ihr, hclose⟩

/-- **The JSON of a rule nests as deep as the rule is high.** -/
theorem depth_toJson (rule : Rule) : rule.toJson.depth = rule.height := by
  induction rule with
  | operand text => rfl
  | operator c l r ihl ihr =>
      have hkeyword (s : String) : (Json.text s).depth = 0 := rfl
      simp only [toJson, Connective.toJson, Json.depth, Json.membersDepth, hkeyword, ihl, ihr,
        height]
      omega

/-- **The JSON of a rule nests as deep as the rule is.** -/
theorem nesting_tokens (rule : Rule) : nesting rule.toJson.tokens = rule.depth := by
  rw [Json.nesting_tokens, depth_toJson, depth_eq_height]

/-! ## The text of a rule -/

/-- A rule is read from a text by its value, within the limits of texts. -/
theorem ofJsonText?_of_spelled {text : String} {json : Json} (h : Spelled json.tokens text.toList) :
    ofJsonText? text = if nesting json.tokens ≤ nestingLimit ∧ json.tokens.all admits then
      ofJson? true json else none := by
  rw [ofJsonText?, tokensOf?_of_spelled h json.separated_tokens]
  dsimp only
  rw [Json.ofTokens?_tokens, Option.bind_some]

/-- **The text of a rule is read back within the limit,** and only there. -/
theorem ofJsonText?_toJson (rule : Rule) :
    ofJsonText? rule.toJson.spelling = if rule.depth ≤ nestingLimit then some rule else none := by
  have hadmits : rule.toJson.tokens.all admits = true :=
    List.all_eq_true.mpr (admits_tokens rule)
  rw [ofJsonText?_of_spelled rule.toJson.spelled_spelling, nesting_tokens, ofJson?_toJson]
  simp only [hadmits, and_true]

/-- A chain is as high as it is long, at least. -/
theorem le_height_chainFrom (c : Connective) (first : Rule) (texts : List String) :
    first.height + texts.length ≤ (chainFrom c first texts).height := by
  induction texts generalizing first with
  | nil => exact Nat.le_refl _
  | cons text texts ih =>
      have hle := ih (operator c first (ofText text))
      have hhigher : first.height < (operator c first (ofText text)).height := by
        rw [height]
        omega
      rw [List.length_cons]
      rw [chainFrom] at hle ⊢
      rw [List.foldl_cons]
      omega

/-- **Rules are read back to a depth of 127.**  The text of a rule, whatever texts are
in its operands, is read back as that rule where it is not deeper, and otherwise it
is not read.  So a chain of 128 rules or more has a text that no rule is read from. -/
theorem ofJsonText?_of_depth :
    (∀ rule : Rule, ofJsonText? rule.toJson.spelling =
      if rule.depth ≤ 127 then some rule else none) ∧
    ∀ (c : Connective) (texts : List String), 128 ≤ texts.length →
      ∃ rule, chain? c texts = some rule ∧ ofJsonText? rule.toJson.spelling = none := by
  refine ⟨ofJsonText?_toJson, ?_⟩
  intro c texts hlong
  cases texts with
  | nil => cases hlong
  | cons text rest =>
      refine ⟨chainFrom c (ofText text) rest, rfl, ?_⟩
      have hheight := le_height_chainFrom c (ofText text) rest
      have hdeep : ¬ (chainFrom c (ofText text) rest).depth ≤ nestingLimit := by
        rw [depth_eq_height, nestingLimit]
        rw [List.length_cons] at hlong
        have hpos := (ofText text).height_pos
        omega
      rw [ofJsonText?_toJson, if_neg hdeep]

end Rule

end RuleEngine
