import RuleEngine.Json.Basic

/-!
# How deep JSON values nest

The tokens of a value open as many brackets as they close, and the deepest level that they
reach is the depth of the value.  So a limit on the nesting of a text is a limit on the
depth of its value.

* `Json.depth` — how many brackets are around the innermost part of a value;
* `Json.nestingFrom_tokens` — the tokens of a value among others;
* `Json.nesting_tokens` — how deep they nest by themselves;
* `Json.itemsDepth_le`, `Json.membersDepth_le` — a bound on all parts bounds the whole.
-/

namespace RuleEngine

namespace Json

mutual

/-- How many brackets are around the innermost part of a value. -/
def depth : Json → Nat
  | .scalar _ => 0
  | .array items => itemsDepth items + 1
  | .object members => membersDepth members + 1

/-- How deep the deepest of items is. -/
def itemsDepth : List Json → Nat
  | [] => 0
  | item :: rest => max item.depth (itemsDepth rest)

/-- How deep the deepest of the values of members is. -/
def membersDepth : List (Option String × Json) → Nat
  | [] => 0
  | (_, value) :: rest => max value.depth (membersDepth rest)

end

mutual

/-- The tokens of a value leave the level as it was, and reach as deep as the value does. -/
theorem nestingFrom_tokens (json : Json) (level deepest : Nat) (h : level ≤ deepest)
    (rest : List Token) : nestingFrom level deepest (json.tokens ++ rest) =
      nestingFrom level (max deepest (level + json.depth)) rest := by
  match json with
  | .scalar s => simp [tokens, nestingFrom, depth, h]
  | .array [] => simp [tokens, nestingFrom, depth, itemsDepth]
  | .array (item :: items) =>
      have hitem := nestingFrom_tokens item _ _ (Nat.le_max_right deepest (level + 1))
        (itemTokens items ++ rest)
      have hitems := nestingFrom_itemTokens items level
        (max (max deepest (level + 1)) (level + 1 + item.depth)) (by omega) rest
      rw [tokens, List.cons_append, List.append_assoc, nestingFrom, hitem, hitems]
      congr 1
      simp only [depth, itemsDepth]
      omega
  | .object [] => simp [tokens, nestingFrom, depth, membersDepth]
  | .object ((name, value) :: members) =>
      have hvalue := nestingFrom_tokens value _ _ (Nat.le_max_right deepest (level + 1))
        (memberTokens members ++ rest)
      have hmembers := nestingFrom_memberTokens members level
        (max (max deepest (level + 1)) (level + 1 + value.depth)) (by omega) rest
      simp only [tokens, List.cons_append, List.append_assoc, nestingFrom]
      rw [hvalue, hmembers]
      congr 1
      simp only [depth, membersDepth]
      omega

/-- The items of an array, up to its closing bracket, are as deep as the deepest of them,
inside the array. -/
theorem nestingFrom_itemTokens (items : List Json) (level deepest : Nat) (h : level + 1 ≤ deepest)
    (rest : List Token) : nestingFrom (level + 1) deepest (itemTokens items ++ rest) =
      nestingFrom level (max deepest (level + 1 + itemsDepth items)) rest := by
  match items with
  | [] => simp [itemTokens, nestingFrom, itemsDepth, h]
  | item :: items =>
      have hitem := nestingFrom_tokens item _ _ h (itemTokens items ++ rest)
      have hitems := nestingFrom_itemTokens items level (max deepest (level + 1 + item.depth))
        (by omega) rest
      rw [itemTokens, List.cons_append, List.append_assoc, nestingFrom, hitem, hitems]
      · congr 1
        simp only [itemsDepth]
        omega
      all_goals nofun

/-- The members of an object, up to its closing bracket, are as deep as the deepest value
among them. -/
theorem nestingFrom_memberTokens (members : List (Option String × Json)) (level deepest : Nat)
    (h : level + 1 ≤ deepest) (rest : List Token) :
    nestingFrom (level + 1) deepest (memberTokens members ++ rest) =
      nestingFrom level (max deepest (level + 1 + membersDepth members)) rest := by
  match members with
  | [] => simp [memberTokens, nestingFrom, membersDepth, h]
  | (name, value) :: members =>
      have hvalue := nestingFrom_tokens value _ _ h (memberTokens members ++ rest)
      have hmembers := nestingFrom_memberTokens members level
        (max deepest (level + 1 + value.depth)) (by omega) rest
      simp only [memberTokens, List.cons_append, List.append_assoc, nestingFrom]
      rw [hvalue, hmembers]
      congr 1
      simp only [membersDepth]
      omega

end

/-- **Tokens nest as deep as their value.** -/
theorem nesting_tokens (json : Json) : nesting json.tokens = json.depth := by
  have h := nestingFrom_tokens json 0 0 (Nat.le_refl 0) []
  rw [List.append_nil] at h
  rw [nesting, h, nestingFrom, Nat.zero_add, Nat.zero_max]

/-- A bound on the depth of each item is one on the depth of all. -/
theorem itemsDepth_le {items : List Json} {n : Nat} (h : ∀ item ∈ items, item.depth ≤ n) :
    itemsDepth items ≤ n := by
  induction items with
  | nil => exact Nat.zero_le n
  | cons item items ih =>
      obtain ⟨hitem, hitems⟩ := List.forall_mem_cons.mp h
      exact Nat.max_le.mpr ⟨hitem, ih hitems⟩

/-- A bound on the depth of each value is one on the depth of all members. -/
theorem membersDepth_le {members : List (Option String × Json)} {n : Nat}
    (h : ∀ m ∈ members, m.2.depth ≤ n) : membersDepth members ≤ n := by
  induction members with
  | nil => exact Nat.zero_le n
  | cons m members ih =>
      obtain ⟨hm, hmembers⟩ := List.forall_mem_cons.mp h
      exact Nat.max_le.mpr ⟨hm, ih hmembers⟩

end Json

end RuleEngine
