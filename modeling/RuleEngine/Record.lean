import RuleEngine.Value

/-!
# Records

A record gives values to field names.  Its fields are kept in ascending order
of their names, one for each name, so that two records with the same fields are
the same record however they were built.

* `Record.insert`, `Record.get?` — write a field, look a field up;
* `Record.ofList` — the record that inserting the pairs in order gives, the last
  pair of a name winning;
* `Record.get?_insert` — a field holds what was written to it last.
-/

namespace RuleEngine

/-- The fields with one written: over the field of that name if there is one,
else at its place in the order. -/
def insertField (name : String) (value : Value) :
    List (String × Value) → List (String × Value)
  | [] => [(name, value)]
  | (m, v) :: rest =>
      if name < m then (name, value) :: (m, v) :: rest
      else if name = m then (name, value) :: rest
      else (m, v) :: insertField name value rest

/-- The value of a field, if there is one of that name. -/
def lookupField (name : String) : List (String × Value) → Option Value
  | [] => none
  | (m, v) :: rest => if name = m then some v else lookupField name rest

/-- The names come in ascending order, none of them twice. -/
def Ascending (fields : List (String × Value)) : Prop :=
  fields.Pairwise fun f g => f.1 < g.1

/-- What is written to a list of fields is one of the old fields or the new
one. -/
theorem mem_insertField {name : String} {value : Value} {fields : List (String × Value)}
    {f : String × Value} (h : f ∈ insertField name value fields) :
    f = (name, value) ∨ f ∈ fields := by
  induction fields with
  | nil => simpa [insertField] using h
  | cons g rest ih =>
      obtain ⟨m, v⟩ := g
      unfold insertField at h
      split at h
      · simpa using h
      · split at h
        · simp only [List.mem_cons] at h ⊢
          rcases h with h | h
          · exact .inl h
          · exact .inr (.inr h)
        · simp only [List.mem_cons] at h ⊢
          rcases h with h | h
          · exact .inr (.inl h)
          · rcases ih h with h | h
            · exact .inl h
            · exact .inr (.inr h)

/-- Of two different names one comes before the other. -/
theorem name_lt_of_not_lt {a b : String} (hlt : ¬ a < b) (hne : a ≠ b) : b < a := by
  rcases Std.lt_trichotomy a b with h | h | h
  · exact absurd h hlt
  · exact absurd h hne
  · exact h

/-- Writing a field keeps the order. -/
theorem ascending_insertField {name : String} {value : Value}
    {fields : List (String × Value)} (h : Ascending fields) :
    Ascending (insertField name value fields) := by
  induction fields with
  | nil => simp [Ascending, insertField]
  | cons g rest ih =>
      obtain ⟨m, v⟩ := g
      obtain ⟨hhead, htail⟩ := List.pairwise_cons.mp h
      unfold insertField
      split
      · rename_i hlt
        refine List.pairwise_cons.mpr ⟨?_, h⟩
        intro f hf
        rcases List.mem_cons.mp hf with rfl | hf
        · exact hlt
        · exact Std.lt_trans hlt (hhead f hf)
      · split
        · rename_i heq
          subst heq
          exact List.pairwise_cons.mpr ⟨hhead, htail⟩
        · rename_i hlt hne
          refine List.pairwise_cons.mpr ⟨?_, ih htail⟩
          intro f hf
          rcases mem_insertField hf with rfl | hf
          · exact name_lt_of_not_lt hlt hne
          · exact hhead f hf

/-- Field values by name. -/
structure Record where
  fields : List (String × Value)
  ascending : Ascending fields

namespace Record

/-- The record without fields. -/
def empty : Record := ⟨[], List.Pairwise.nil⟩

/-- The record with one field written. -/
def insert (r : Record) (name : String) (value : Value) : Record :=
  ⟨insertField name value r.fields, ascending_insertField r.ascending⟩

/-- The value of a field, if the record has it. -/
def get? (r : Record) (name : String) : Option Value := lookupField name r.fields

/-- How many fields there are. -/
def size (r : Record) : Nat := r.fields.length

/-- The record that writing the pairs in order gives. -/
def ofList (pairs : List (String × Value)) : Record :=
  pairs.foldl (fun r p => r.insert p.1 p.2) empty

@[simp] theorem get?_empty (name : String) : empty.get? name = none := rfl

/-- A field holds what was written to it, and writing it leaves the others. -/
theorem get?_insert (r : Record) (name m : String) (value : Value) :
    (r.insert name value).get? m = if m = name then some value else r.get? m := by
  unfold insert get?
  simp only
  induction r.fields with
  | nil => simp [insertField, lookupField]
  | cons g rest ih => grind [insertField, lookupField]

/-- A field that was written has the value that was written. -/
theorem get?_insert_self (r : Record) (name : String) (value : Value) :
    (r.insert name value).get? name = some value := by
  rw [get?_insert, if_pos rfl]

end Record

end RuleEngine
