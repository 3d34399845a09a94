import RuleEngine.Record
import RuleEngine.Value.Json

/-!
# Records in JSON

A record is a JSON object.  Its members are fields, written to the record in
order, so that the last member of a name wins; every one of them must hold a
field value, the overwritten ones too.
-/

namespace RuleEngine

namespace Record

/-- The fields that the members of an object present. -/
def fieldsOfMembers? : List (Option String × Json) → Option (List (String × Value))
  | [] => some []
  | (some name, json) :: rest =>
      match Value.ofJson? json, fieldsOfMembers? rest with
      | some value, some fields => some ((name, value) :: fields)
      | _, _ => none
  | (none, _) :: _ => none

/-- The record that a JSON value presents. -/
def ofJson? : Json → Option Record
  | .object members => (fieldsOfMembers? members).map ofList
  | _ => none

/-- The record that a JSON text presents. -/
def ofJsonText? (text : String) : Option Record := (Json.ofText? text).bind ofJson?

end Record

end RuleEngine
