import RuleEngine.Record

/-!
# Building records

There are three ways to fill a record.  A record that is held somewhere is written to in
place, one field after the other.  A chain hands on from link to link the record with one
field more.  And a record is collected from pairs that are already there, by `Record.ofList`.

* `Record.write`, `Record.writeAll` — in place;
* `Record.withField`, `Record.chained` — in a chain.
-/

namespace RuleEngine

namespace Record

/-- Writes a field of the record that is held. -/
def write (name : String) (value : Value) : StateM Record Unit :=
  modify fun record => record.insert name value

/-- Writes pairs to the record that is held, one after the other. -/
def writeAll : List (String × Value) → StateM Record Unit
  | [] => pure ()
  | (name, value) :: rest => do
      write name value
      writeAll rest

/-- The record with a field written to it, to be handed on. -/
def withField (record : Record) (name : String) (value : Value) : Record :=
  ((write name value).run record).2

/-- The record at the end of a chain that starts from none. -/
def chained (pairs : List (String × Value)) : Record :=
  pairs.foldl (fun record pair => record.withField pair.1 pair.2) empty

end Record

end RuleEngine
