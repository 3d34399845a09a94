import RuleEngine.Rule.Json
import RuleEngine.Rule.Split
import RuleEngine.Rule.Verdict

/-!
# Rule sets

A rule set is a list of rule texts with the connective that joins them.  It is
judged like the chain of its rules.

In JSON it is an object with an array of texts under `rules` and a connective
under `operator`.  Reading takes the members in any order, and passes over
members of other names whatever their values are, however deep they nest.  The
rules must occur once; the connective at most once, and where it does not the
standard one is meant.  A rule set may also be an array of its rules, or of its
rules and its connective.

* `RuleSet.rule?`, `RuleSet.verdict` — the chain of a rule set, and its verdict;
* `RuleSet.toJson`, `RuleSet.ofJson?` — to JSON and back.
-/

namespace RuleEngine

/-- Rule texts and the connective that joins them. -/
structure RuleSet where
  rules : List String
  connective : Connective
  deriving DecidableEq, Repr

namespace RuleSet

/-- The rule set without rules, with the standard connective. -/
def empty : RuleSet := ⟨[], .standard⟩

/-- The chain of the rules, if there are any. -/
def rule? (set : RuleSet) : Option Rule := Rule.chain? set.connective set.rules

/-- The verdict of a rule set on a record. -/
def verdict (set : RuleSet) (record : Record) : Verdict := Rule.verdictOf? record set.rule?

/-! ## In JSON -/

/-- The JSON of a rule set. -/
def toJson (set : RuleSet) : Json :=
  .object [(some "rules", .array (set.rules.map Json.text)),
    (some "operator", set.connective.toJson)]

/-- The texts that JSON values are, all of them. -/
def textsOfItems? : List Json → Option (List String)
  | [] => some []
  | .scalar (.string (some s)) :: rest => (textsOfItems? rest).map (s :: ·)
  | _ :: _ => none

/-- The rule texts that a JSON value presents. -/
def rulesOfJson? : Json → Option (List String)
  | .array items => textsOfItems? items
  | _ => none

/-- The rule set of its two parts, the connective possibly left out. -/
def ofParts? (rules : Json) (connective : Option Json) : Option RuleSet :=
  match rulesOfJson? rules, connective with
  | some texts, none => some ⟨texts, .standard⟩
  | some texts, some json => (Connective.ofJson? json).map fun c => ⟨texts, c⟩
  | none, _ => none

/-- The rule set that an object with the given members presents. -/
def ofMembers? (members : List (Option String × Json)) : Option RuleSet :=
  if members.all fun m => m.1.isSome then
    match Json.valuesOf "rules" members, Json.valuesOf "operator" members with
    | [rules], [] => ofParts? rules none
    | [rules], [connective] => ofParts? rules (some connective)
    | _, _ => none
  else none

/-- The rule set that a JSON value presents. -/
def ofJson? : Json → Option RuleSet
  | .array [rules] => ofParts? rules none
  | .array [rules, connective] => ofParts? rules (some connective)
  | .object members => ofMembers? members
  | _ => none

/-- The rule set that a JSON text presents. -/
def ofJsonText? (text : String) : Option RuleSet := (Json.ofText? text).bind ofJson?

end RuleSet

end RuleEngine
