import RuleEngine.Connective
import RuleEngine.Json.Reader
import RuleEngine.Json.Spelling
import RuleEngine.Number.Scaled
import RuleEngine.Rule.Basic

/-!
# Rules in JSON

A node of a rule is an object with its kind under `type`, and under `value` the
text of an operand, or the connective of an operator with the children under
`left` and `right`.  Reading takes the members in any order and passes over
names that the kind does not have; a name that it has must occur once.  A node
may also be an array: its kind, then its parts in this order.

A text of a rule is read whole before its nodes are: brackets may nest 127 deep
in it, every number in it must be finite, and every string a text, in parts that
are passed over as well.

Below the root two more spellings are read: the kind of a node by its number,
zero for an operand and one for an operator, and in the whole tree an empty
object for the null of a connective.

A connective is written as its keyword.  It is read from its keyword, or from an
object whose only member has the keyword as its name, and null as its value.

* `Connective.toJson`, `Connective.ofJson?` — connectives to JSON and back;
* `Rule.toJson`, `Rule.ofJson?` — to JSON and back;
* `Rule.ofJsonText?` — the rule of a JSON text, within the limits.
-/

namespace RuleEngine

/-! ## Connectives -/

namespace Connective

/-- The JSON of a connective. -/
def toJson (c : Connective) : Json := .text c.keyword

/-- The connective that a JSON value presents.  `isNothing` says which values
count as null. -/
def ofJsonWith? (isNothing : Json → Bool) : Json → Option Connective
  | .scalar (.string (some s)) => ofKeyword? s
  | .object [(some s, value)] => if isNothing value then ofKeyword? s else none
  | _ => none

/-- The value null. -/
def isNull : Json → Bool
  | .scalar .null => true
  | _ => false

/-- The connective that a JSON value presents. -/
def ofJson? (json : Json) : Option Connective := ofJsonWith? isNull json

end Connective

/-! ## Nodes -/

/-- The two kinds of nodes. -/
inductive NodeKind where
  | operand
  | operator
  deriving DecidableEq, Repr

namespace NodeKind

/-- The name of a kind. -/
def name : NodeKind → String
  | operand => "operand"
  | operator => "operator"

/-- The kind of a name. -/
def ofName? (s : String) : Option NodeKind :=
  if s = "operand" then some operand
  else if s = "operator" then some operator
  else none

/-- The kind of a number. -/
def ofNumber? (n : Numeral) : Option NodeKind :=
  if n = ⟨false, 0, [], none⟩ then some operand
  else if n = ⟨false, 1, [], none⟩ then some operator
  else none

/-- The kind that a JSON value presents, at the root or below it. -/
def ofJson? (atRoot : Bool) : Json → Option NodeKind
  | .scalar (.string (some s)) => ofName? s
  | .scalar (.number n) => if atRoot then none else ofNumber? n
  | _ => none

end NodeKind

namespace Rule

/-- The JSON of a rule. -/
def toJson : Rule → Json
  | operand text =>
      .object [(some "type", .text NodeKind.operand.name), (some "value", .text text)]
  | operator c l r =>
      .object [(some "type", .text NodeKind.operator.name), (some "value", c.toJson),
        (some "left", l.toJson), (some "right", r.toJson)]

/-- The text that a JSON value is. -/
def textOfJson? : Json → Option String
  | .scalar (.string text) => text
  | _ => none

/-- A value that counts as null in the connective of a node. -/
def isNothing : Json → Bool
  | .scalar .null => true
  | .object [] => true
  | _ => false

/-- A JSON value with the rule that it presents, if it presents one. -/
abbrev Part := Json × Option Rule

/-- The operand of its text. -/
def operandOf? (value : Part) : Option Rule := (textOfJson? value.1).map operand

/-- The operator of its connective and its children. -/
def operatorOf? (value left right : Part) : Option Rule :=
  match Connective.ofJsonWith? isNothing value.1, left.2, right.2 with
  | some c, some l, some r => some (operator c l r)
  | _, _, _ => none

/-- The node that an object with the given members presents. -/
def ofMembers? (atRoot : Bool) (members : List (Option String × Part)) : Option Rule :=
  match Json.valuesOf "type" members with
  | [kind] =>
      match NodeKind.ofJson? atRoot kind.1 with
      | some .operand =>
          match Json.valuesOf "value" members with
          | [value] => operandOf? value
          | _ => none
      | some .operator =>
          match Json.valuesOf "value" members, Json.valuesOf "left" members,
            Json.valuesOf "right" members with
          | [value], [left], [right] => operatorOf? value left right
          | _, _, _ => none
      | none => none
  | _ => none

/-- The node that an array with the given items presents. -/
def ofItems? (atRoot : Bool) : List Part → Option Rule
  | [kind, value] =>
      if NodeKind.ofJson? atRoot kind.1 = some .operand then operandOf? value else none
  | [kind, value, left, right] =>
      if NodeKind.ofJson? atRoot kind.1 = some .operator then operatorOf? value left right
      else none
  | _ => none

mutual

/-- The rule that a JSON value presents, at the root or below it. -/
def ofJson? (atRoot : Bool) : Json → Option Rule
  | .scalar _ => none
  | .array items => ofItems? atRoot (partsOfItems items)
  | .object members => ofMembers? atRoot (partsOfMembers members)

/-- Items with the rules that they present. -/
def partsOfItems : List Json → List Part
  | [] => []
  | item :: rest => (item, ofJson? false item) :: partsOfItems rest

/-- Members with the rules that their values present. -/
def partsOfMembers : List (Option String × Json) → List (Option String × Part)
  | [] => []
  | (name, value) :: rest => (name, value, ofJson? false value) :: partsOfMembers rest

end

/-- How deep brackets may nest in the text of a rule. -/
def nestingLimit : Nat := 127

/-- A token that may stand in the text of a rule. -/
def admits : Token → Bool
  | .scalar (.number n) => n.scaled?.isSome
  | .scalar (.string text) => text.isSome
  | _ => true

/-- The rule that a JSON text presents. -/
def ofJsonText? (text : String) : Option Rule :=
  match tokensOf? text with
  | none => none
  | some tokens =>
      if nesting tokens ≤ nestingLimit ∧ tokens.all admits then
        (Json.ofTokens? tokens).bind (ofJson? true)
      else none

end Rule

end RuleEngine
