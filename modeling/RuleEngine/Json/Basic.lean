import RuleEngine.Number.Numeral

/-!
# JSON values and their tokens

A JSON text is a sequence of tokens, and a JSON value has exactly one sequence
of tokens; what is free in the text, blanks and the spelling of strings and
numbers, is not in the tokens.

* `Json` — values, with the members of an object in order and repeated names
  kept;
* `Json.tokens` — the tokens of a value;
* `nesting` — how deep the brackets of a sequence of tokens nest.
-/

namespace RuleEngine

/-- A JSON value without parts.  A string literal may hold escapes of single
surrogates; then it denotes no text, and its content is `none`. -/
inductive Scalar where
  | null
  | bool (value : Bool)
  | number (value : Numeral)
  | string (text : Option String)
  deriving DecidableEq

/-- A JSON value. -/
inductive Json where
  | scalar (value : Scalar)
  | array (items : List Json)
  | object (members : List (Option String × Json))

/-- A piece of JSON text. -/
inductive Token where
  | scalar (value : Scalar)
  | openArray
  | closeArray
  | openObject
  | closeObject
  | comma
  | colon
  deriving DecidableEq

namespace Json

/-- A value that is a text. -/
def text (s : String) : Json := .scalar (.string (some s))

/-- The null value. -/
def null : Json := .scalar .null

mutual

/-- The tokens of a value. -/
def tokens : Json → List Token
  | .scalar value => [.scalar value]
  | .array [] => [.openArray, .closeArray]
  | .array (item :: rest) => .openArray :: (item.tokens ++ itemTokens rest)
  | .object [] => [.openObject, .closeObject]
  | .object ((name, value) :: rest) =>
      .openObject :: .scalar (.string name) :: .colon :: (value.tokens ++ memberTokens rest)

/-- The tokens of the items that follow the first one, and the end of the
array. -/
def itemTokens : List Json → List Token
  | [] => [.closeArray]
  | item :: rest => .comma :: (item.tokens ++ itemTokens rest)

/-- The tokens of the members that follow the first one, and the end of the
object. -/
def memberTokens : List (Option String × Json) → List Token
  | [] => [.closeObject]
  | (name, value) :: rest =>
      .comma :: .scalar (.string name) :: .colon :: (value.tokens ++ memberTokens rest)

end

/-- The values that an object's members of a name have, in order. -/
def valuesOf {α : Type} (name : String) (members : List (Option String × α)) : List α :=
  (members.filter fun m => m.1 = some name).map (·.2)

end Json

/-- The deepest level that brackets reach, from a level on. -/
def nestingFrom (level deepest : Nat) : List Token → Nat
  | [] => deepest
  | .openArray :: rest | .openObject :: rest =>
      nestingFrom (level + 1) (max deepest (level + 1)) rest
  | .closeArray :: rest | .closeObject :: rest => nestingFrom (level - 1) deepest rest
  | _ :: rest => nestingFrom level deepest rest

/-- How deep brackets nest in a sequence of tokens. -/
def nesting (tokens : List Token) : Nat := nestingFrom 0 0 tokens

end RuleEngine
