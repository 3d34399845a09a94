import RuleEngine.Proofs.JsonNumbers
import RuleEngine.Proofs.RuleJson
import RuleEngine.Proofs.RuleSetJson

/-!
# The forms of a rule in JSON

A node of a rule may be written in many ways.  Its parts stand in an object, each under its
name, in any order and among members of any other names; or they stand in an array, in their
own order.  In both the kind of the node is told by a tag, which may come after the parts
that it governs: under a name of one kind any value may stand in a node of the other.  So
nothing of an object can be read before its tag is found, and its tag is one of its
members like the others.

All of this is one relation: a value has parts, under a tag and the names of fields.  A rule
is read from a value exactly where it has the parts of a kind, in a form that the kind
accepts, and children are values again.  What lacks a part, or has it twice, has no parts;
and then neither has a rule any value that it is a node of.

* `Rule.HasParts` — the parts of a node, in an object or in an array;
* `Rule.ofJson?_eq_some_iff` — a node is read from its parts, and from nothing else;
* `Rule.Presents` — the values that present a rule, in any mixture of forms;
* `Rule.HasNode`, `Rule.Faulty` — the nodes of a value, and nodes with parts that are
  missing or repeated;
* `Rule.ofJsonText?_forms` — the texts that a rule is read from, and texts that none is.
-/

namespace RuleEngine

/-- The names of the parts of a node, behind its tag. -/
def NodeKind.fields : NodeKind → List String
  | operand => ["value"]
  | operator => ["value", "left", "right"]

/-- A kind is read from its name, at the root and below it. -/
theorem NodeKind.ofJson?_name (kind : NodeKind) (atRoot : Bool) :
    ofJson? atRoot (.text kind.name) = some kind := by
  cases kind <;> rfl

namespace Rule

/-! ## The parts of a node -/

/-- A value has parts: in an object its tag and each part stand alone under their names,
and in an array the parts stand behind the tag. -/
inductive HasParts (tag : Json) (fields : List String) : Json → List Json → Prop
  | object {members : List (Option String × Json)} {parts : List Json}
      (htag : Json.valuesOf "type" members = [tag])
      (hparts : fields.map (Json.valuesOf · members) = parts.map fun part => [part]) :
      HasParts tag fields (.object members) parts
  | array {parts : List Json} (hlength : parts.length = fields.length) :
      HasParts tag fields (.array (tag :: parts)) parts

/-- The parts of an operator that stand in an object. -/
theorem operator_fields_iff {members : List (Option String × Json)} {value left right : Json} :
    NodeKind.operator.fields.map (Json.valuesOf · members) =
        [value, left, right].map (fun part => [part]) ↔
      Json.valuesOf "value" members = [value] ∧ Json.valuesOf "left" members = [left] ∧
        Json.valuesOf "right" members = [right] := by
  simp [NodeKind.fields]

/-- The node that parts of a kind make. -/
inductive Made : NodeKind → List Json → Rule → Prop
  | operand {text : String} : Made .operand [.text text] (operand text)
  | operator {value left right : Json} {c : Connective} {l r : Rule}
      (hc : Connective.ofJsonWith? isNothing value = some c) (hl : ofJson? false left = some l)
      (hr : ofJson? false right = some r) : Made .operator [value, left, right] (operator c l r)

/-- A value with the rule that it presents. -/
def part (json : Json) : Part := (json, ofJson? false json)

/-- The parts of an array are its items, each with what it presents. -/
theorem partsOfItems_eq (items : List Json) : partsOfItems items = items.map part := by
  induction items with
  | nil => rfl
  | cons item items ih => rw [partsOfItems, ih, List.map_cons, part]

/-- The parts under a name are the values under it, each with what it presents. -/
theorem valuesOf_partsOfMembers (name : String) (members : List (Option String × Json)) :
    Json.valuesOf name (partsOfMembers members) = (Json.valuesOf name members).map part := by
  unfold Json.valuesOf
  induction members with
  | nil => rfl
  | cons m members ih =>
      rw [partsOfMembers, List.filter_cons, List.filter_cons]
      by_cases hname : m.1 = some name
      · simp [hname, ih, part]
      · simp [hname, ih]

/-- An operand is made of its text. -/
theorem operandOf?_part {json : Json} {rule : Rule} :
    operandOf? (part json) = some rule ↔ Made .operand [json] rule := by
  constructor
  · intro h
    obtain ⟨text, htext, rfl⟩ := Option.map_eq_some_iff.mp h
    unfold textOfJson? at htext
    split at htext
    · rename_i hjson
      have htextJson : json = .text text := by rw [Json.text, ← htext]; exact hjson
      rw [htextJson]
      exact .operand
    · cases htext
  · intro h
    cases h
    rfl

/-- An operator is made of its connective and its two children. -/
theorem operatorOf?_part {value left right : Json} {rule : Rule} :
    operatorOf? (part value) (part left) (part right) = some rule ↔
      Made .operator [value, left, right] rule := by
  constructor
  · intro h
    unfold operatorOf? at h
    split at h
    · rename_i hc hl hr
      rw [← Option.some.inj h]
      exact .operator hc hl hr
    · cases h
  · intro h
    cases h with
    | operator hc hl hr => simp only [operatorOf?, part, hc, hl, hr]

/-- A node that is read from an array is made of the parts behind its tag. -/
theorem exists_parts_of_ofItems? {atRoot : Bool} {items : List Json} {rule : Rule}
    (h : ofItems? atRoot (items.map part) = some rule) :
    ∃ tag kind parts, items = tag :: parts ∧ parts.length = kind.fields.length ∧
      NodeKind.ofJson? atRoot tag = some kind ∧ Made kind parts rule := by
  unfold ofItems? at h
  split at h
  · rename_i hitems
    obtain ⟨tag, parts, rfl, rfl, hparts⟩ := List.map_eq_cons_iff.mp hitems
    obtain ⟨value, rfl, rfl⟩ := List.map_eq_singleton_iff.mp hparts
    split at h
    · rename_i hkind
      exact ⟨tag, .operand, _, rfl, rfl, hkind, operandOf?_part.mp h⟩
    · cases h
  · rename_i hitems
    obtain ⟨tag, parts, rfl, rfl, hparts⟩ := List.map_eq_cons_iff.mp hitems
    obtain ⟨value, children, rfl, rfl, hchildren⟩ := List.map_eq_cons_iff.mp hparts
    obtain ⟨left, last, rfl, rfl, hlast⟩ := List.map_eq_cons_iff.mp hchildren
    obtain ⟨right, rfl, rfl⟩ := List.map_eq_singleton_iff.mp hlast
    split at h
    · rename_i hkind
      exact ⟨tag, .operator, _, rfl, rfl, hkind, operatorOf?_part.mp h⟩
    · cases h
  · cases h

/-- **A node is read from an array** of its tag and its parts. -/
theorem ofItems?_of_made {atRoot : Bool} {tag : Json} {kind : NodeKind} {parts : List Json}
    {rule : Rule} (hkind : NodeKind.ofJson? atRoot tag = some kind)
    (hmade : Made kind parts rule) : ofItems? atRoot ((tag :: parts).map part) = some rule := by
  cases hmade with
  | operand => exact (if_pos hkind).trans (operandOf?_part.mpr .operand)
  | operator hc hl hr => exact (if_pos hkind).trans (operatorOf?_part.mpr (.operator hc hl hr))

/-- A node that is read from an object is made of parts that stand there. -/
theorem exists_parts_of_ofMembers? {atRoot : Bool} {members : List (Option String × Json)}
    {rule : Rule} (h : ofMembers? atRoot (partsOfMembers members) = some rule) :
    ∃ tag kind parts, Json.valuesOf "type" members = [tag] ∧
      kind.fields.map (Json.valuesOf · members) = parts.map (fun part => [part]) ∧
      NodeKind.ofJson? atRoot tag = some kind ∧ Made kind parts rule := by
  simp only [ofMembers?, valuesOf_partsOfMembers] at h
  split at h
  · rename_i htags
    obtain ⟨tag, htag, rfl⟩ := List.map_eq_singleton_iff.mp htags
    split at h
    · rename_i hkind
      split at h
      · rename_i hvalues
        obtain ⟨value, hvalue, rfl⟩ := List.map_eq_singleton_iff.mp hvalues
        exact ⟨tag, .operand, [value], htag, by simp [NodeKind.fields, hvalue], hkind,
          operandOf?_part.mp h⟩
      · cases h
    · rename_i hkind
      split at h
      · rename_i hvalues hlefts hrights
        obtain ⟨value, hvalue, rfl⟩ := List.map_eq_singleton_iff.mp hvalues
        obtain ⟨left, hleft, rfl⟩ := List.map_eq_singleton_iff.mp hlefts
        obtain ⟨right, hright, rfl⟩ := List.map_eq_singleton_iff.mp hrights
        exact ⟨tag, .operator, _, htag, operator_fields_iff.mpr ⟨hvalue, hleft, hright⟩, hkind,
          operatorOf?_part.mp h⟩
      · cases h
    · cases h
  · cases h

/-- **A node is read from an object** whose members have its parts. -/
theorem ofMembers?_of_made {atRoot : Bool} {members : List (Option String × Json)} {tag : Json}
    {kind : NodeKind} {parts : List Json} {rule : Rule}
    (htag : Json.valuesOf "type" members = [tag])
    (hparts : kind.fields.map (Json.valuesOf · members) = parts.map fun part => [part])
    (hkind : NodeKind.ofJson? atRoot tag = some kind) (hmade : Made kind parts rule) :
    ofMembers? atRoot (partsOfMembers members) = some rule := by
  have hread : NodeKind.ofJson? atRoot (part tag).1 = some kind := hkind
  simp only [ofMembers?, valuesOf_partsOfMembers]
  rw [htag]
  cases hmade with
  | operand =>
      obtain ⟨hvalue, -⟩ := List.cons.inj hparts
      simp only [hvalue, List.map_cons, List.map_nil, hread]
      exact operandOf?_part.mpr .operand
  | operator hc hl hr =>
      obtain ⟨hvalue, hleft, hright⟩ := operator_fields_iff.mp hparts
      simp only [hvalue, hleft, hright, List.map_cons, List.map_nil, hread]
      exact operatorOf?_part.mpr (.operator hc hl hr)

/-- **A rule is read from the parts of its root,** and from nothing else. -/
theorem ofJson?_eq_some_iff {atRoot : Bool} {json : Json} {rule : Rule} :
    ofJson? atRoot json = some rule ↔
      ∃ tag kind parts, HasParts tag kind.fields json parts ∧
        NodeKind.ofJson? atRoot tag = some kind ∧ Made kind parts rule := by
  cases json with
  | scalar value =>
      constructor
      · intro h
        rw [ofJson?] at h
        cases h
      · intro h
        obtain ⟨tag, kind, parts, hparts, -⟩ := h
        cases hparts
  | array items =>
      rw [ofJson?, partsOfItems_eq]
      constructor
      · intro h
        obtain ⟨tag, kind, parts, rfl, hlength, hrest⟩ := exists_parts_of_ofItems? h
        exact ⟨tag, kind, parts, .array hlength, hrest⟩
      · intro h
        obtain ⟨tag, kind, parts, hparts, hkind, hmade⟩ := h
        cases hparts with
        | array hlength => exact ofItems?_of_made hkind hmade
  | object members =>
      rw [ofJson?]
      constructor
      · intro h
        obtain ⟨tag, kind, parts, htag, hparts, hrest⟩ := exists_parts_of_ofMembers? h
        exact ⟨tag, kind, parts, .object htag hparts, hrest⟩
      · intro h
        obtain ⟨tag, kind, parts, hparts, hkind, hmade⟩ := h
        cases hparts with
        | object htag hfields => exact ofMembers?_of_made htag hfields hkind hmade

/-! ## Values that present a rule -/

/-- A value presents a rule: each node has its parts, in an object or in an array, under the
name of its kind; they are a text, or a connective and values that present the children. -/
inductive Presents : Json → Rule → Prop
  | operand {json : Json} {text : String}
      (h : HasParts (.text NodeKind.operand.name) NodeKind.operand.fields json [.text text]) :
      Presents json (operand text)
  | operator {json value left right : Json} {c : Connective} {l r : Rule}
      (h : HasParts (.text NodeKind.operator.name) NodeKind.operator.fields json
        [value, left, right])
      (hc : Connective.Presents value c) (hl : Presents left l) (hr : Presents right r) :
      Presents json (operator c l r)

/-- **A rule is read from what presents it,** at the root and below. -/
theorem ofJson?_of_presents {json : Json} {rule : Rule} (h : Presents json rule)
    (atRoot : Bool) : ofJson? atRoot json = some rule := by
  induction h generalizing atRoot with
  | operand h =>
      exact ofJson?_eq_some_iff.mpr ⟨_, _, _, h, NodeKind.ofJson?_name .operand atRoot, .operand⟩
  | operator h hc _ _ ihl ihr =>
      exact ofJson?_eq_some_iff.mpr ⟨_, _, _, h, NodeKind.ofJson?_name .operator atRoot,
        .operator (Connective.ofJsonWith?_of_presents rfl hc) (ihl false) (ihr false)⟩

/-! ## Nodes -/

/-- The kind that a value says it is of, at the root or below. -/
inductive HasKind (atRoot : Bool) : Json → NodeKind → Prop
  | object {members : List (Option String × Json)} {tag : Json} {kind : NodeKind}
      (htag : Json.valuesOf "type" members = [tag])
      (hkind : NodeKind.ofJson? atRoot tag = some kind) : HasKind atRoot (.object members) kind
  | array {tag : Json} {items : List Json} {kind : NodeKind}
      (hkind : NodeKind.ofJson? atRoot tag = some kind) : HasKind atRoot (.array (tag :: items)) kind

/-- The values that stand in an operator for its children. -/
inductive IsChild : Json → Json → Prop
  | object {members : List (Option String × Json)} {name : String} {child : Json}
      (hname : name = "left" ∨ name = "right") (h : (some name, child) ∈ members) :
      IsChild (.object members) child
  | array {tag value child : Json} {items : List Json} (h : child ∈ items) :
      IsChild (.array (tag :: value :: items)) child

/-- The nodes of a value: the value, and those of the values that stand in it for children,
if it says that it is an operator. -/
inductive HasNode : Bool → Json → Bool → Json → Prop
  | root {atRoot : Bool} {json : Json} : HasNode atRoot json atRoot json
  | child {atRoot below : Bool} {json child node : Json} (hkind : HasKind atRoot json .operator)
      (hchild : IsChild json child) (h : HasNode false child below node) :
      HasNode atRoot json below node

/-- A node lacks or repeats its tag or a part of its kind, or has not as many items as there
are parts. -/
inductive Faulty (atRoot : Bool) : Json → Prop
  | tag {members : List (Option String × Json)}
      (h : (Json.valuesOf "type" members).length ≠ 1) : Faulty atRoot (.object members)
  | part {members : List (Option String × Json)} {kind : NodeKind} {name : String}
      (hkind : HasKind atRoot (.object members) kind) (hname : name ∈ kind.fields)
      (h : (Json.valuesOf name members).length ≠ 1) : Faulty atRoot (.object members)
  | empty : Faulty atRoot (.array [])
  | items {tag : Json} {items : List Json} {kind : NodeKind}
      (hkind : HasKind atRoot (.array (tag :: items)) kind)
      (h : items.length ≠ kind.fields.length) : Faulty atRoot (.array (tag :: items))

variable {atRoot : Bool} {json : Json} {rule : Rule}

/-- A value says one kind at most. -/
theorem HasKind.unique {kind other : NodeKind} (h : HasKind atRoot json kind)
    (hother : HasKind atRoot json other) : kind = other := by
  cases h with
  | object htag hkind =>
      cases hother with
      | object htag' hkind' =>
          rw [htag'] at htag
          obtain ⟨rfl, -⟩ := List.cons.inj htag
          exact Option.some.inj (hkind.symm.trans hkind')
  | array hkind =>
      cases hother with
      | array hkind' => exact Option.some.inj (hkind.symm.trans hkind')

/-- A value with the parts of a node has the kind that its tag says. -/
theorem HasParts.hasKind {tag : Json} {kind : NodeKind} {fields : List String}
    {parts : List Json} (h : HasParts tag fields json parts)
    (hkind : NodeKind.ofJson? atRoot tag = some kind) : HasKind atRoot json kind := by
  cases h with
  | object htag _ => exact .object htag hkind
  | array _ => exact .array hkind

/-- In an object every part of a kind stands alone. -/
theorem HasParts.length_valuesOf {tag : Json} {fields : List String} {parts : List Json}
    {members : List (Option String × Json)} (h : HasParts tag fields (.object members) parts)
    {name : String} (hname : name ∈ fields) : (Json.valuesOf name members).length = 1 := by
  cases h with
  | object _ hparts =>
      have hmem : Json.valuesOf name members ∈ parts.map fun part => [part] :=
        hparts ▸ List.mem_map_of_mem hname
      obtain ⟨part, -, hpart⟩ := List.mem_map.mp hmem
      rw [← hpart]
      rfl

/-- **A rule is read from no faulty node.** -/
theorem ofJson?_of_faulty (h : Faulty atRoot json) : ofJson? atRoot json = none := by
  rw [Option.eq_none_iff_forall_ne_some]
  intro rule hread
  obtain ⟨tag, kind, parts, hparts, hkind, -⟩ := ofJson?_eq_some_iff.mp hread
  cases h with
  | tag h =>
      cases hparts with
      | object htag _ => exact h (by rw [htag]; rfl)
  | part hother hname h =>
      obtain rfl := hother.unique (hparts.hasKind hkind)
      exact h (hparts.length_valuesOf hname)
  | empty => cases hparts
  | items hother h =>
      obtain rfl := hother.unique (hparts.hasKind hkind)
      cases hparts with
      | array hlength => exact h hlength

/-- **Where a rule is read from an operator, one is read from each of its children.** -/
theorem exists_of_isChild {child : Json} (h : ofJson? atRoot json = some rule)
    (hkind : HasKind atRoot json .operator) (hchild : IsChild json child) :
    ∃ rule, ofJson? false child = some rule := by
  obtain ⟨tag, kind, parts, hparts, htag, hmade⟩ := ofJson?_eq_some_iff.mp h
  obtain rfl := hkind.unique (hparts.hasKind htag)
  cases hmade with
  | @operator value left right c l r hc hl hr =>
      have hmem : child = left ∨ child = right := by
        cases hparts with
        | array _ =>
            cases hchild with
            | array hitem => simpa using hitem
        | object _ hfields =>
            obtain ⟨-, hleft, hright⟩ := operator_fields_iff.mp hfields
            cases hchild with
            | object hname hmember =>
                have hvalue := Json.mem_valuesOf.mpr hmember
                rcases hname with rfl | rfl
                · rw [hleft, List.mem_singleton] at hvalue
                  exact .inl hvalue
                · rw [hright, List.mem_singleton] at hvalue
                  exact .inr hvalue
      rcases hmem with rfl | rfl
      · exact ⟨l, hl⟩
      · exact ⟨r, hr⟩

/-- **One faulty node is enough:** no rule is read from a value that it is a node of. -/
theorem ofJson?_of_hasNode {below : Bool} {node : Json} (h : HasNode atRoot json below node)
    (hfaulty : Faulty below node) : ofJson? atRoot json = none := by
  induction h with
  | root => exact ofJson?_of_faulty hfaulty
  | child hkind hchild _ ih =>
      rw [Option.eq_none_iff_forall_ne_some]
      intro rule hread
      obtain ⟨childRule, hchildRule⟩ := exists_of_isChild hread hkind hchild
      rw [ih hfaulty] at hchildRule
      cases hchildRule

/-! ## Texts -/

/-- What may stand in the text of a rule: numbers that are field values, and strings that
are texts. -/
theorem all_admits {tokens : List Token} (hstrings : .scalar (.string none) ∉ tokens)
    (hnumbers : ∀ n, .scalar (.number n) ∈ tokens → Value.ofNumeral? n ≠ none) :
    tokens.all admits = true := by
  rw [List.all_eq_true]
  intro token htoken
  unfold admits
  split
  · exact Value.ofNumeral?_ne_none_iff.mp (hnumbers _ htoken)
  · rename_i content
    cases content with
    | none => exact absurd htoken hstrings
    | some s => rfl
  · rfl

/-- **The forms of a rule in JSON texts.**  From a text of a value that presents a rule this
rule is read, whatever forms are mixed in the value, in what order its members are, and what
stands under names that are passed over; only that brackets nest 127 deep at most, every
string is a text, and every number in it would be a field value by itself, as those are that
are small enough.  From a text of a value with a faulty node no rule is read. -/
theorem ofJsonText?_forms :
    (∀ (text : String) (json : Json) (rule : Rule), Spelled json.tokens text.toList →
      nesting json.tokens ≤ 127 → .scalar (.string none) ∉ json.tokens →
      (∀ n, .scalar (.number n) ∈ json.tokens → Value.ofNumeral? n ≠ none) →
      Presents json rule → ofJsonText? text = some rule) ∧
    (∀ n : Numeral, n.magnitude.value < 1797693134862315 * 10 ^ 293 →
      Value.ofNumeral? n ≠ none) ∧
    ∀ (text : String) (json node : Json) (below : Bool), Spelled json.tokens text.toList →
      HasNode true json below node → Faulty below node → ofJsonText? text = none := by
  refine ⟨fun text json rule hspelled hnesting hstrings hnumbers hpresents => ?_,
    fun n => Value.ofNumeral?_ne_none, fun text json node below hspelled hnode hfaulty => ?_⟩
  · rw [ofJsonText?_of_spelled hspelled, if_pos ⟨hnesting, all_admits hstrings hnumbers⟩]
    exact ofJson?_of_presents hpresents true
  · rw [ofJsonText?_of_spelled hspelled, ofJson?_of_hasNode hnode hfaulty, ite_self]

/-- All forms in one text: tags behind the parts, an array in an object, a connective under
its keyword, a letter in four digits, and a member that is passed over.  In the other text
the second child has no part. -/
theorem ofJsonText?_forms_mixed :
    ofJsonText? ("\x7b\"right\":[\"operand\",\"\\u0062\"],\"value\":\x7b\"OR\":null\x7d," ++
        "\"x\":1e5, \"left\":\x7b\"value\":\"a\",\"type\":\"operand\"\x7d," ++
        "\"type\":\"operator\"\x7d") =
      some (operator .or (operand "a") (operand "b")) ∧
    ofJsonText? ("\x7b\"left\":[\"operand\",\"a\"],\"right\":\x7b\"type\":\"operand\"\x7d," ++
        "\"value\":\"AND\",\"type\":\"operator\"\x7d") = none := by
  constructor
  · let number : Numeral := ⟨false, 1, [], some 5⟩
    let left : Json := .object [(some "value", .text "a"), (some "type", .text "operand")]
    let right : Json := .array [.text "operand", .text "b"]
    let value : Json := .object [(some "OR", .null)]
    let json : Json := .object [(some "right", right), (some "value", value),
      (some "x", .scalar (.number number)), (some "left", left), (some "type", .text "operator")]
    have hleft : Presents left (operand "a") := .operand (.object rfl rfl)
    have hright : Presents right (operand "b") := .operand (.array rfl)
    have hpresents : Presents json (operator .or (operand "a") (operand "b")) :=
      .operator (.object rfl rfl) (.null .or) hleft hright
    have hnumbers : ∀ n, .scalar (.number n) ∈ json.tokens → Value.ofNumeral? n ≠ none := by
      intro n hn
      have hsame : n = number := by
        simpa [json, left, right, value, Json.tokens, Json.itemTokens, Json.memberTokens,
          Json.text, Json.null] using hn
      rw [hsame]
      decide +kernel
    exact ofJsonText?_forms.1 _ json _ (spelled_of_tokensOf? (by decide +kernel)) (by decide)
      (by decide) hnumbers hpresents
  · let right : Json := .object [(some "type", .text "operand")]
    let json : Json := .object [(some "left", .array [.text "operand", .text "a"]),
      (some "right", right), (some "value", .text "AND"), (some "type", .text "operator")]
    have hnode : HasNode true json false right :=
      .child (.object rfl rfl) (.object (.inr rfl) (List.mem_cons_of_mem _ List.mem_cons_self)) .root
    have hfaulty : Faulty false right := .part (.object rfl rfl) List.mem_cons_self (by decide)
    exact ofJsonText?_forms.2.2 _ json right false (spelled_of_tokensOf? (by decide +kernel))
      hnode hfaulty

/-- A number that is not read makes the text of a rule unreadable, though it is below the
largest finite one, and passed over. -/
theorem ofJsonText?_near_largest_passed_over :
    ∃ json, Spelled json.tokens ("\x7b\"type\":\"operand\",\"value\":\"a > 1\"," ++
        "\"x\":1797693134862315649e290\x7d").toList ∧
      nesting json.tokens ≤ 127 ∧ .scalar (.string none) ∉ json.tokens ∧
      (∀ n, .scalar (.number n) ∈ json.tokens → n.magnitude.value < rankValue (rankLimit - 1)) ∧
      Presents json (operand "a > 1") ∧
      ofJsonText? ("\x7b\"type\":\"operand\",\"value\":\"a > 1\"," ++
        "\"x\":1797693134862315649e290\x7d") = none := by
  let json : Json := .object [(some "type", .text "operand"), (some "value", .text "a > 1"),
    (some "x", .scalar (.number Numeral.belowLargest))]
  have hnumbers : ∀ n, .scalar (.number n) ∈ json.tokens →
      n.magnitude.value < rankValue (rankLimit - 1) := by
    intro n hn
    have hsame : n = Numeral.belowLargest := by
      simpa [json, Json.tokens, Json.memberTokens, Json.text] using hn
    rw [hsame]
    exact Numeral.belowLargest_lt
  exact ⟨json, spelled_of_tokensOf? (by decide +kernel), by decide, by decide, hnumbers,
    .operand (.object rfl rfl), by decide +kernel⟩

end Rule

end RuleEngine
