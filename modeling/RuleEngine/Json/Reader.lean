import RuleEngine.Json.Scanner

/-!
# JSON values from tokens

Tokens are read one by one.  The reader holds what it expects next, and a
**frame** for every bracket that is still open, the innermost first; so it
nests nowhere, however deep the brackets do.

* `Json.ofTokens?` — the value of a sequence of tokens;
* `Json.ofText?` — the value of a text in strict JSON;
* `Json.ofTokens?_tokens` — reading the tokens of a value gives the value.
-/

namespace RuleEngine

/-- An open bracket with what has been read inside it, the last part first. -/
inductive Frame where
  | array (items : List Json)
  /-- the members before, and the name whose value is being read -/
  | object (members : List (Option String × Json)) (name : Option String)

/-- What the reader expects. -/
inductive Expectation where
  /-- a value -/
  | value
  /-- the first item of an array, or its end -/
  | firstItem
  /-- the name of the first member of an object, or its end -/
  | firstName
  /-- the name of a further member, after those read before it -/
  | name (members : List (Option String × Json))
  /-- the colon behind a name -/
  | colon (members : List (Option String × Json)) (name : Option String)
  /-- what may follow a value: a comma, the end of a bracket, or nothing -/
  | after (value : Json)

namespace Expectation

/-- What is expected, and the open brackets, after the first token of a
value. -/
def ofFirstToken? (frames : List Frame) : Token → Option (Expectation × List Frame)
  | .scalar s => some (.after (.scalar s), frames)
  | .openArray => some (.firstItem, frames)
  | .openObject => some (.firstName, frames)
  | _ => none

/-- What is expected, and the open brackets, after one more token; `none` when
the token is not among what was expected. -/
def next? (frames : List Frame) : Expectation → Token → Option (Expectation × List Frame)
  | .value, token => ofFirstToken? frames token
  | .firstItem, .closeArray => some (.after (.array []), frames)
  | .firstItem, token => ofFirstToken? (.array [] :: frames) token
  | .firstName, .closeObject => some (.after (.object []), frames)
  | .firstName, .scalar (.string n) => some (.colon [] n, frames)
  | .firstName, _ => none
  | .name members, .scalar (.string n) => some (.colon members n, frames)
  | .name _, _ => none
  | .colon members n, .colon => some (.value, .object members n :: frames)
  | .colon _ _, _ => none
  | .after v, token =>
      match frames, token with
      | .array items :: outer, .comma => some (.value, .array (v :: items) :: outer)
      | .array items :: outer, .closeArray =>
          some (.after (.array (v :: items).reverse), outer)
      | .object members n :: outer, .comma => some (.name ((n, v) :: members), outer)
      | .object members n :: outer, .closeObject =>
          some (.after (.object ((n, v) :: members).reverse), outer)
      | _, _ => none

end Expectation

/-- Reads tokens to their end, where one value must be complete and no bracket
open. -/
def readTokens? (frames : List Frame) (expected : Expectation) : List Token → Option Json
  | [] =>
      match expected, frames with
      | .after v, [] => some v
      | _, _ => none
  | token :: rest =>
      match expected.next? frames token with
      | none => none
      | some (expected', frames') => readTokens? frames' expected' rest

/-- The first item of an array starts like any value. -/
theorem readTokens?_firstItem (item : Json) (frames : List Frame) (rest : List Token) :
    readTokens? frames .firstItem (item.tokens ++ rest) =
      readTokens? (.array [] :: frames) .value (item.tokens ++ rest) := by
  cases item with
  | scalar s => simp [Json.tokens, readTokens?, Expectation.next?, Expectation.ofFirstToken?]
  | array items =>
      cases items <;>
        simp [Json.tokens, readTokens?, Expectation.next?, Expectation.ofFirstToken?]
  | object members =>
      cases members with
      | nil => simp [Json.tokens, readTokens?, Expectation.next?, Expectation.ofFirstToken?]
      | cons m ms => simp [Json.tokens, readTokens?, Expectation.next?, Expectation.ofFirstToken?]

mutual

/-- The tokens of a value leave the reader where the value has been read. -/
theorem readTokens?_tokens (json : Json) (frames : List Frame) (rest : List Token) :
    readTokens? frames .value (json.tokens ++ rest) = readTokens? frames (.after json) rest := by
  match json with
  | .scalar s => simp [Json.tokens, readTokens?, Expectation.next?, Expectation.ofFirstToken?]
  | .array [] => simp [Json.tokens, readTokens?, Expectation.next?, Expectation.ofFirstToken?]
  | .array (item :: items) =>
      simp only [Json.tokens, List.cons_append, List.append_assoc]
      simp only [readTokens?, Expectation.next?, Expectation.ofFirstToken?]
      rw [readTokens?_firstItem, readTokens?_tokens item, readTokens?_itemTokens items]
      simp
  | .object [] => simp [Json.tokens, readTokens?, Expectation.next?, Expectation.ofFirstToken?]
  | .object ((name, value) :: members) =>
      simp only [Json.tokens, List.cons_append, List.append_assoc]
      simp only [readTokens?, Expectation.next?, Expectation.ofFirstToken?]
      rw [readTokens?_tokens value, readTokens?_memberTokens members]
      simp

/-- The tokens of further items close their array. -/
theorem readTokens?_itemTokens (items : List Json) (v : Json) (done : List Json)
    (frames : List Frame) (rest : List Token) :
    readTokens? (.array done :: frames) (.after v) (Json.itemTokens items ++ rest) =
      readTokens? frames (.after (.array ((v :: done).reverse ++ items))) rest := by
  match items with
  | [] => simp [Json.itemTokens, readTokens?, Expectation.next?]
  | item :: items =>
      simp only [Json.itemTokens, List.cons_append, List.append_assoc]
      simp only [readTokens?, Expectation.next?]
      rw [readTokens?_tokens item, readTokens?_itemTokens items]
      simp

/-- The tokens of further members close their object. -/
theorem readTokens?_memberTokens (members : List (Option String × Json)) (v : Json)
    (name : Option String) (done : List (Option String × Json))
    (frames : List Frame) (rest : List Token) :
    readTokens? (.object done name :: frames) (.after v) (Json.memberTokens members ++ rest) =
      readTokens? frames (.after (.object (((name, v) :: done).reverse ++ members))) rest := by
  match members with
  | [] => simp [Json.memberTokens, readTokens?, Expectation.next?]
  | (n, value) :: members =>
      simp only [Json.memberTokens, List.cons_append, List.append_assoc]
      simp only [readTokens?, Expectation.next?]
      rw [readTokens?_tokens value, readTokens?_memberTokens members]
      simp

end

namespace Json

/-- The value of a sequence of tokens. -/
def ofTokens? (tokens : List Token) : Option Json := readTokens? [] .value tokens

/-- The value of a text. -/
def ofText? (text : String) : Option Json :=
  match tokensOf? text with
  | none => none
  | some tokens => ofTokens? tokens

/-- **Tokens determine their value.**  Reading the tokens of a value gives it
back. -/
theorem ofTokens?_tokens (json : Json) : ofTokens? json.tokens = some json := by
  have h := readTokens?_tokens json [] []
  simpa [ofTokens?, readTokens?] using h

end Json

end RuleEngine
