import RuleEngine.Proofs.JsonDepth
import RuleEngine.Proofs.SpelledText
import RuleEngine.RuleSet.Json

/-!
# Rule sets from JSON

A rule set is read from an object or from an array.  In an object the rules stand under
their name, which must be there once, and the connective under its own, which may be
missing; in an array the rules come first, and the connective behind them or nothing.
Where no connective is given it is *and*; but a null in its place is not the same as
nothing, and no connective.

All other members of an object are passed over.  They must be JSON, and that is all: their
values may nest as deep as they like, and their names may repeat.  The two members that are
read nest so little that the limit on nesting is never reached.

* `Connective.Presents`, `Connective.Given` — a connective, and one that may be missing;
* `RuleSet.Presents` — what a rule set is read from;
* `RuleSet.ofJson?_eq_some_iff` — it is read from that and from nothing else;
* `RuleSet.nesting_readPart_le` — what is read nests two deep at most;
* `RuleSet.ofJsonText?_grammar` — the texts of rule sets, and that a rule set is read back
  from its own.
-/

namespace RuleEngine

namespace Connective

/-- The values that are a connective: its keyword, and an object whose only member is null
under the keyword. -/
inductive Presents : Json → Connective → Prop
  | keyword (c : Connective) : Presents (.text c.keyword) c
  | null (c : Connective) : Presents (.object [(some c.keyword, .null)]) c

/-- The connective that is given by one value, or *and* by none. -/
inductive Given : List Json → Connective → Prop
  | none : Given [] .and
  | one {json : Json} {c : Connective} (h : Presents json c) : Given [json] c

/-- A connective is read from what presents it, wherever null counts as null. -/
theorem ofJsonWith?_of_presents {isNothing : Json → Bool} (hnull : isNothing .null = true)
    {json : Json} {c : Connective} (h : Presents json c) :
    ofJsonWith? isNothing json = some c := by
  cases h with
  | keyword => exact ofKeyword?_eq_some_iff.mpr rfl
  | null =>
      rw [ofJsonWith?, if_pos hnull]
      exact ofKeyword?_eq_some_iff.mpr rfl

/-- **A connective is read from what presents it,** and from nothing else. -/
theorem ofJson?_eq_some_iff {json : Json} {c : Connective} :
    ofJson? json = some c ↔ Presents json c := by
  constructor
  · intro h
    unfold ofJson? ofJsonWith? at h
    split at h
    · exact ofKeyword?_eq_some_iff.mp h ▸ .keyword c
    · rename_i value
      split at h
      · rename_i hnull
        unfold isNull at hnull
        split at hnull
        · exact ofKeyword?_eq_some_iff.mp h ▸ .null c
        · cases hnull
      · cases h
    · cases h
  · exact ofJsonWith?_of_presents rfl

/-- What presents a connective has brackets once at most. -/
theorem Presents.depth_le {json : Json} {c : Connective} (h : Presents json c) :
    json.depth ≤ 1 := by
  cases h with
  | keyword => exact Nat.zero_le 1
  | null => exact Nat.le_refl 1

end Connective

namespace Json

/-- The values under a name are those of the members that have it. -/
theorem mem_valuesOf {name : String} {members : List (Option String × Json)} {value : Json} :
    value ∈ valuesOf name members ↔ (some name, value) ∈ members := by
  simp [valuesOf]

/-- The names of an object are among its tokens. -/
theorem name_mem_tokens {members : List (Option String × Json)} {m : Option String × Json}
    (h : m ∈ members) : .scalar (.string m.1) ∈ (object members).tokens := by
  have hfurther {members : List (Option String × Json)} (h : m ∈ members) :
      .scalar (.string m.1) ∈ memberTokens members := by
    induction members with
    | nil => cases h
    | cons n members ih =>
        rcases List.mem_cons.mp h with rfl | htail
        · simp [memberTokens]
        · simp [memberTokens, ih htail]
  cases members with
  | nil => cases h
  | cons n members =>
      rcases List.mem_cons.mp h with rfl | htail
      · simp [tokens]
      · simp [tokens, hfurther htail]

end Json

namespace RuleSet

/-- The values that a rule set is read from. -/
inductive Presents : Json → RuleSet → Prop
  /-- an object, whatever its other members are -/
  | object {members : List (Option String × Json)} {rules : List String} {c : Connective}
      (hrules : Json.valuesOf "rules" members = [.array (rules.map Json.text)])
      (hoperator : Connective.Given (Json.valuesOf "operator" members) c) :
      Presents (.object members) ⟨rules, c⟩
  | array {rules : List String} {operator : List Json} {c : Connective}
      (hoperator : Connective.Given operator c) :
      Presents (.array (.array (rules.map Json.text) :: operator)) ⟨rules, c⟩

/-- The part of a value that is read: an object without the members that are passed over. -/
def readPart : Json → Json
  | .object members => .object (members.filter fun m => m.1 = some "rules" ∨ m.1 = some "operator")
  | json => json

/-- Items are texts where every one of them is. -/
theorem textsOfItems?_eq_some_iff {items : List Json} {texts : List String} :
    textsOfItems? items = some texts ↔ items = texts.map Json.text := by
  constructor
  · intro h
    fun_induction textsOfItems? items generalizing texts with
    | case1 => exact Option.some.inj h ▸ rfl
    | case2 s rest ih =>
        obtain ⟨tail, htail, rfl⟩ := Option.map_eq_some_iff.mp h
        rw [List.map_cons, ← ih htail, Json.text]
    | case3 => cases h
  · rintro rfl
    induction texts with
    | nil => rfl
    | cons s texts ih => rw [List.map_cons, Json.text, textsOfItems?, ih, Option.map_some]

/-- Rule texts are read from an array of texts. -/
theorem rulesOfJson?_eq_some_iff {json : Json} {rules : List String} :
    rulesOfJson? json = some rules ↔ json = .array (rules.map Json.text) := by
  cases json with
  | array items => rw [rulesOfJson?, textsOfItems?_eq_some_iff, Json.array.injEq]
  | scalar _ => simp [rulesOfJson?]
  | object _ => simp [rulesOfJson?]

/-- The two parts of a rule set are its rules, and its connective if it is given. -/
theorem ofParts?_eq_some_iff {json : Json} {operator : Option Json} {set : RuleSet} :
    ofParts? json operator = some set ↔ json = .array (set.rules.map Json.text) ∧
      Connective.Given operator.toList set.connective := by
  rw [← rulesOfJson?_eq_some_iff]
  constructor
  · intro h
    unfold ofParts? at h
    split at h
    · rename_i texts hrules
      cases h
      exact ⟨hrules, .none⟩
    · rename_i texts value hrules
      obtain ⟨c, hc, rfl⟩ := Option.map_eq_some_iff.mp h
      exact ⟨hrules, .one (Connective.ofJson?_eq_some_iff.mp hc)⟩
    · cases h
  · intro h
    obtain ⟨hrules, hoperator⟩ := h
    obtain ⟨rules, c⟩ := set
    cases operator with
    | none =>
        cases hoperator
        simp [ofParts?, hrules, Connective.standard]
    | some value =>
        cases hoperator with
        | one hvalue =>
            simp [ofParts?, hrules, Connective.ofJson?_eq_some_iff.mpr hvalue]

/-- An object is read by its two members, where every name is a text. -/
theorem ofMembers?_eq_some_iff {members : List (Option String × Json)} {set : RuleSet}
    (h : ∀ m ∈ members, m.1.isSome) :
    ofMembers? members = some set ↔ Presents (.object members) set := by
  rw [ofMembers?, if_pos (List.all_eq_true.mpr h)]
  constructor
  · intro hread
    split at hread
    · rename_i hrules hoperator
      obtain ⟨rfl, hgiven⟩ := ofParts?_eq_some_iff.mp hread
      exact .object hrules (hoperator ▸ hgiven)
    · rename_i hrules hoperator
      obtain ⟨rfl, hgiven⟩ := ofParts?_eq_some_iff.mp hread
      exact .object hrules (hoperator ▸ hgiven)
    · cases hread
  · intro hpresents
    cases hpresents with
    | object hrules hoperator =>
        rw [hrules]
        generalize Json.valuesOf "operator" members = operator at hoperator
        cases hoperator with
        | none => exact ofParts?_eq_some_iff.mpr ⟨rfl, .none⟩
        | one hvalue => exact ofParts?_eq_some_iff.mpr ⟨rfl, .one hvalue⟩

/-- **A rule set is read from what presents it,** and from nothing else, where every string
is a text. -/
theorem ofJson?_eq_some_iff {json : Json} {set : RuleSet}
    (h : .scalar (.string none) ∉ json.tokens) : ofJson? json = some set ↔ Presents json set := by
  by_cases hobject : ∃ members, json = .object members
  · obtain ⟨members, rfl⟩ := hobject
    refine ofMembers?_eq_some_iff fun m hm => ?_
    rw [Option.isSome_iff_ne_none]
    intro hnone
    exact h (hnone ▸ Json.name_mem_tokens hm)
  constructor
  · intro hread
    unfold ofJson? at hread
    split at hread
    · obtain ⟨rfl, hgiven⟩ := ofParts?_eq_some_iff.mp hread
      exact .array hgiven
    · obtain ⟨rfl, hgiven⟩ := ofParts?_eq_some_iff.mp hread
      exact .array hgiven
    · exact absurd ⟨_, rfl⟩ hobject
    · cases hread
  · intro hpresents
    cases hpresents with
    | object _ _ => exact absurd ⟨_, rfl⟩ hobject
    | array hoperator =>
        cases hoperator with
        | none => exact ofParts?_eq_some_iff.mpr ⟨rfl, .none⟩
        | one hvalue => exact ofParts?_eq_some_iff.mpr ⟨rfl, .one hvalue⟩

/-! ## How deep the parts nest -/

/-- The array of rule texts has no brackets inside its own. -/
theorem depth_rules_le (rules : List String) : (Json.array (rules.map Json.text)).depth ≤ 1 := by
  refine Nat.succ_le_succ (Json.itemsDepth_le fun item hitem => ?_)
  obtain ⟨s, -, rfl⟩ := List.mem_map.mp hitem
  exact Nat.le_refl 0

theorem depth_given_le {values : List Json} {c : Connective} (h : Connective.Given values c) :
    ∀ value ∈ values, value.depth ≤ 1 := by
  cases h with
  | none => nofun
  | one hvalue => exact List.forall_mem_singleton.mpr hvalue.depth_le

/-- **What is read nests two deep at most,** whatever is passed over. -/
theorem nesting_readPart_le {json : Json} {set : RuleSet} (h : Presents json set) :
    nesting (readPart json).tokens ≤ 2 := by
  rw [Json.nesting_tokens]
  cases h with
  | @object members rules c hrules hoperator =>
      refine Nat.succ_le_succ (Json.membersDepth_le fun m hm => ?_)
      obtain ⟨hmem, hname⟩ := List.mem_filter.mp hm
      rcases of_decide_eq_true hname with hname | hname
      · have hvalue : m.2 ∈ Json.valuesOf "rules" members :=
          Json.mem_valuesOf.mpr (hname ▸ hmem)
        rw [hrules, List.mem_singleton] at hvalue
        rw [hvalue]
        exact depth_rules_le rules
      · exact depth_given_le hoperator _ (Json.mem_valuesOf.mpr (hname ▸ hmem))
  | @array rules operator c hoperator =>
      refine Nat.succ_le_succ (Json.itemsDepth_le ?_)
      exact List.forall_mem_cons.mpr ⟨depth_rules_le rules, depth_given_le hoperator⟩

/-! ## Texts of rule sets -/

/-- The JSON of a rule set presents it. -/
theorem presents_toJson (set : RuleSet) : Presents set.toJson set := by
  have hrules : Json.valuesOf "rules" [(some "rules", .array (set.rules.map Json.text)),
      (some "operator", set.connective.toJson)] = [.array (set.rules.map Json.text)] := rfl
  exact .object hrules (.one (.keyword set.connective))

/-- Every string in the JSON of a rule set is a text. -/
theorem none_not_mem_toJson (set : RuleSet) : .scalar (.string none) ∉ set.toJson.tokens := by
  have hfurther (rules : List String) :
      .scalar (.string none) ∉ Json.itemTokens (rules.map Json.text) := by
    induction rules with
    | nil => simp [Json.itemTokens]
    | cons s rules ih => simpa [Json.itemTokens, Json.text, Json.tokens] using ih
  have hrules : .scalar (.string none) ∉ (Json.array (set.rules.map Json.text)).tokens := by
    cases set.rules with
    | nil => simp [Json.tokens]
    | cons s rules => simpa [Json.text, Json.tokens] using hfurther rules
  simpa [toJson, Connective.toJson, Json.text, Json.tokens, Json.memberTokens] using hrules

/-- A rule set is read back from its text. -/
theorem ofJsonText?_toJson (set : RuleSet) : ofJsonText? set.toJson.spelling = some set := by
  rw [ofJsonText?, Json.ofText?_spelling, Option.bind_some]
  exact (ofJson?_eq_some_iff set.none_not_mem_toJson).mpr set.presents_toJson

/-- A text of a rule set: strict JSON whose value presents it.  In what is read brackets may
nest 127 deep. -/
def PresentedBy (set : RuleSet) (text : String) : Prop :=
  ∃ json, Spelled json.tokens text.toList ∧ nesting (readPart json).tokens ≤ 127 ∧
    Presents json set

/-- **The texts of a rule set,** where no half of a surrogate pair stands alone: it is read
from those that present it, and from its own among them; and where there is none that a text
presents, nothing is read. -/
theorem ofJsonText?_grammar :
    (∀ text : String, ¬ HasLoneSurrogate text.toList →
      (∀ set, ofJsonText? text = some set ↔ set.PresentedBy text) ∧
      (ofJsonText? text = none ↔ ∀ set : RuleSet, ¬ set.PresentedBy text)) ∧
    ∀ set : RuleSet, ofJsonText? set.toJson.spelling = some set := by
  refine ⟨fun text hlone => ?_, ofJsonText?_toJson⟩
  have hnames {json : Json} (h : Spelled json.tokens text.toList) :
      .scalar (.string none) ∉ json.tokens := fun hnone => hlone ⟨_, h, hnone⟩
  have hiff (set : RuleSet) : ofJsonText? text = some set ↔ set.PresentedBy text := by
    rw [ofJsonText?, Option.bind_eq_some_iff]
    constructor
    · intro h
      obtain ⟨json, hjson, hset⟩ := h
      have hspelled := Json.ofText?_eq_some_iff.mp hjson
      have hpresents := (ofJson?_eq_some_iff (hnames hspelled)).mp hset
      have hnesting := nesting_readPart_le hpresents
      exact ⟨json, hspelled, by omega, hpresents⟩
    · intro h
      obtain ⟨json, hspelled, -, hpresents⟩ := h
      have hset := (ofJson?_eq_some_iff (hnames hspelled)).mpr hpresents
      exact ⟨json, Json.ofText?_eq_some_iff.mpr hspelled, hset⟩
  refine ⟨hiff, ?_⟩
  rw [Option.eq_none_iff_forall_ne_some]
  exact forall_congr' fun set => not_congr (hiff set)

/-- A member of another name is passed over, and *and* is meant where nothing is said. -/
theorem ofJsonText?_grammar_other_name :
    ofJsonText? "\x7b\"x\":[],\"rules\":[\"a\"]\x7d" = some ⟨["a"], .and⟩ := by
  let json : Json := .object [(some "x", .array []), (some "rules", .array [.text "a"])]
  have hspelling : json.spelling = "\x7b\"x\":[],\"rules\":[\"a\"]\x7d" := rfl
  have hpresents : Presents json ⟨["a"], .and⟩ := .object rfl .none
  have hlone : ¬ HasLoneSurrogate json.spelling.toList := not_hasLoneSurrogate (by decide)
  have hread := ((ofJsonText?_grammar.1 json.spelling hlone).1 ⟨["a"], .and⟩).mpr
    ⟨json, json.spelled_spelling, by decide, hpresents⟩
  rwa [hspelling] at hread

end RuleSet

end RuleEngine
