import Mathlib.Data.Finset.Card
import Mathlib.Data.List.Induction
import RuleEngine.Proofs.SpelledText
import RuleEngine.Record.Building
import RuleEngine.Record.Json

/-!
# Records and the pairs they are built from

However a record is built, what it holds is decided by the pairs that were written to it, in
their order.  A name that was written more than once has the value that was written last, and
counts once.

The members of a JSON object are such pairs.  They are told apart by the texts that their
names denote, not by how these are spelled.  Every one of them must present a value: one that
does not is not made good by another of its name behind it.

* `LastOf` — the last pair of a name;
* `Record.get?_ofList_eq_some_iff`, `Record.size_ofList` — what a record of pairs holds;
* `PairsOf`, `Record.ofJsonText?_eq_some_iff` — the pairs of an object, and the record that is
  read from its texts;
* `Record.built_alike` — all the ways to build a record.
-/

namespace RuleEngine

/-- The value of a name in the last of the pairs that have it. -/
def LastOf {α : Type} (pairs : List (String × α)) (name : String) (value : α) : Prop :=
  ∃ before after, pairs = before ++ (name, value) :: after ∧ name ∉ after.map Prod.fst

/-- One more pair is the last of its name, and changes nothing for other names. -/
theorem lastOf_concat {α : Type} (pairs : List (String × α)) (m name : String) (v value : α) :
    LastOf (pairs ++ [(m, v)]) name value ↔
      if name = m then v = value else LastOf pairs name value := by
  constructor
  · intro h
    obtain ⟨before, after, hpairs, hlast⟩ := h
    rcases List.eq_nil_or_concat' after with rfl | ⟨after, pair, rfl⟩
    · obtain ⟨-, hpair⟩ := List.append_inj' hpairs rfl
      obtain ⟨rfl, rfl⟩ := Prod.mk.inj (List.cons.inj hpair).1
      rw [if_pos rfl]
    · rw [← List.cons_append, ← List.append_assoc] at hpairs
      obtain ⟨hfront, hpair⟩ := List.append_inj' hpairs rfl
      obtain rfl : (m, v) = pair := (List.cons.inj hpair).1
      rw [List.map_append, List.mem_append, not_or] at hlast
      have hname : name ≠ m := by simpa using hlast.2
      rw [if_neg hname]
      exact ⟨before, after, hfront, hlast.1⟩
  · intro h
    by_cases hname : name = m
    · rw [if_pos hname] at h
      exact ⟨pairs, [], by rw [hname, h], by simp⟩
    · rw [if_neg hname] at h
      obtain ⟨before, after, rfl, hlast⟩ := h
      refine ⟨before, after ++ [(m, v)], by simp, ?_⟩
      rw [List.map_append, List.mem_append, not_or]
      exact ⟨hlast, by simpa using hname⟩

namespace Record

/-! ## What a record of pairs holds -/

/-- The last pair of a list is written last. -/
theorem ofList_concat (pairs : List (String × Value)) (name : String) (value : Value) :
    ofList (pairs ++ [(name, value)]) = (ofList pairs).insert name value := by
  rw [ofList, List.foldl_append]
  rfl

/-- **A field holds what the last pair of its name says.** -/
theorem get?_ofList_eq_some_iff {pairs : List (String × Value)} {name : String} {value : Value} :
    (ofList pairs).get? name = some value ↔ LastOf pairs name value := by
  induction pairs using List.reverseRecOn with
  | nil => simp [ofList, LastOf]
  | append_singleton pairs pair ih =>
      obtain ⟨m, v⟩ := pair
      rw [ofList_concat, get?_insert, lastOf_concat]
      by_cases hname : name = m
      · simp [hname]
      · simp [hname, ih]

/-- A record of pairs has no field of a name that none of them has. -/
theorem get?_ofList_eq_none_iff {pairs : List (String × Value)} {name : String} :
    (ofList pairs).get? name = none ↔ name ∉ pairs.map Prod.fst := by
  induction pairs using List.reverseRecOn with
  | nil => simp [ofList]
  | append_singleton pairs pair ih =>
      obtain ⟨m, v⟩ := pair
      rw [ofList_concat, get?_insert, List.map_append, List.mem_append, not_or, ← ih]
      by_cases hname : name = m <;> simp [hname]

/-- The names of a record's fields. -/
def names (record : Record) : List String := record.fields.map Prod.fst

theorem nodup_names (record : Record) : record.names.Nodup := by
  have hdistinct : record.fields.Pairwise fun f g => f.1 ≠ g.1 :=
    record.ascending.imp fun h => Std.ne_of_lt h
  exact List.pairwise_map.mpr hdistinct

/-- The names of a record are those that it has a value for. -/
theorem mem_names_iff {record : Record} {name : String} :
    name ∈ record.names ↔ record.get? name ≠ none := by
  unfold names get?
  induction record.fields with
  | nil => simp [lookupField]
  | cons f rest ih =>
      obtain ⟨m, v⟩ := f
      rw [List.map_cons, List.mem_cons, ih, lookupField]
      by_cases hname : name = m <;> simp [hname]

/-- **There are as many fields as names.** -/
theorem size_ofList (pairs : List (String × Value)) :
    (ofList pairs).size = (pairs.map Prod.fst).toFinset.card := by
  have hnames : (pairs.map Prod.fst).toFinset = (ofList pairs).names.toFinset := by
    ext name
    rw [List.mem_toFinset, List.mem_toFinset, mem_names_iff, Ne, get?_ofList_eq_none_iff,
      not_not]
  rw [hnames, List.toFinset_card_of_nodup (nodup_names _), names, List.length_map, size]

/-! ## Ways to build it -/

/-- Writing pairs into a record writes them one after another. -/
theorem writeAll_run (pairs : List (String × Value)) (record : Record) :
    ((writeAll pairs).run record).2 =
      pairs.foldl (fun record pair => record.insert pair.1 pair.2) record := by
  induction pairs generalizing record with
  | nil => rfl
  | cons pair rest ih => exact ih (record.insert pair.1 pair.2)

theorem chained_eq (pairs : List (String × Value)) : chained pairs = ofList pairs := rfl

/-! ## Records of objects -/

/-- The pairs of members: each name with the value that is presented under it. -/
def PairsOf (members : List (String × Json)) (pairs : List (String × Value)) : Prop :=
  List.Forall₂ (fun m p => m.1 = p.1 ∧ Value.ofJson? m.2 = some p.2) members pairs

/-- The object that has the given members. -/
def objectOf (members : List (String × Json)) : Json :=
  .object (members.map fun m => (some m.1, m.2))

/-- The fields of members are their pairs, all of them. -/
theorem fieldsOfMembers?_eq_some_iff {members : List (String × Json)}
    {pairs : List (String × Value)} :
    fieldsOfMembers? (members.map fun m => (some m.1, m.2)) = some pairs ↔
      PairsOf members pairs := by
  unfold PairsOf
  induction members generalizing pairs with
  | nil => simp [fieldsOfMembers?, eq_comm]
  | cons m members ih =>
      obtain ⟨name, json⟩ := m
      rw [List.map_cons, List.forall₂_cons_left_iff]
      constructor
      · intro h
        unfold fieldsOfMembers? at h
        split at h
        · rename_i value fields hvalue hfields
          exact ⟨(name, value), fields, ⟨rfl, hvalue⟩, ih.mp hfields, (Option.some.inj h).symm⟩
        · cases h
      · intro h
        obtain ⟨⟨_, value⟩, fields, ⟨rfl, hvalue⟩, hrest, rfl⟩ := h
        simp only [fieldsOfMembers?, hvalue, ih.mpr hrest]

/-- There are pairs for the members exactly where every one of them presents a value. -/
theorem exists_pairsOf_iff {members : List (String × Json)} :
    (∃ pairs, PairsOf members pairs) ↔ ∀ m ∈ members, ∃ value, Value.ofJson? m.2 = some value := by
  unfold PairsOf
  induction members with
  | nil => simp
  | cons m members ih =>
      rw [List.forall_mem_cons, ← ih]
      constructor
      · intro h
        obtain ⟨pairs, hpairs⟩ := h
        obtain ⟨p, rest, ⟨-, hvalue⟩, hrest, -⟩ := List.forall₂_cons_left_iff.mp hpairs
        exact ⟨⟨p.2, hvalue⟩, rest, hrest⟩
      · intro h
        obtain ⟨⟨value, hvalue⟩, rest, hrest⟩ := h
        exact ⟨(m.1, value) :: rest, .cons ⟨rfl, hvalue⟩ hrest⟩

/-- **The record that is read from a text of an object** is that of its pairs, if it has
them. -/
theorem ofJsonText?_eq_some_iff {text : String} {members : List (String × Json)}
    (h : Spelled (objectOf members).tokens text.toList) {record : Record} :
    ofJsonText? text = some record ↔ ∃ pairs, PairsOf members pairs ∧ record = ofList pairs := by
  rw [ofJsonText?, Json.ofText?_eq_some_iff.mpr h, Option.bind_some, objectOf, ofJson?,
    Option.map_eq_some_iff]
  exact exists_congr fun pairs => and_congr fieldsOfMembers?_eq_some_iff eq_comm

/-- Pairs have the names of their members. -/
theorem names_of_pairsOf {members : List (String × Json)} {pairs : List (String × Value)}
    (h : PairsOf members pairs) : pairs.map Prod.fst = members.map Prod.fst := by
  unfold PairsOf at h
  induction h with
  | nil => rfl
  | cons hm _ ih => rw [List.map_cons, List.map_cons, ih, hm.1]

/-- The last pair of a name is that of the last member of it. -/
theorem lastOf_of_pairsOf {members : List (String × Json)} {pairs : List (String × Value)}
    {name : String} {json : Json} (h : PairsOf members pairs) (hlast : LastOf members name json) :
    ∃ value, LastOf pairs name value ∧ Value.ofJson? json = some value := by
  obtain ⟨before, after, rfl, hname⟩ := hlast
  unfold PairsOf at h
  induction before generalizing pairs with
  | nil =>
      obtain ⟨⟨_, value⟩, rest, ⟨rfl, hvalue⟩, hrest, rfl⟩ := List.forall₂_cons_left_iff.mp h
      exact ⟨value, ⟨[], rest, rfl, by rwa [names_of_pairsOf hrest]⟩, hvalue⟩
  | cons m before ih =>
      obtain ⟨p, rest, -, hrest, rfl⟩ := List.forall₂_cons_left_iff.mp h
      obtain ⟨value, ⟨front, back, rfl, hback⟩, hvalue⟩ := ih hrest
      exact ⟨value, ⟨p :: front, back, rfl, hback⟩, hvalue⟩

/-- **A field that is read holds what the last member of its name presents.** -/
theorem get?_of_ofJsonText? {text : String} {members : List (String × Json)} {record : Record}
    {name : String} {json : Json} (h : Spelled (objectOf members).tokens text.toList)
    (hread : ofJsonText? text = some record) (hlast : LastOf members name json) :
    record.get? name = Value.ofJson? json := by
  obtain ⟨pairs, hpairs, rfl⟩ := (ofJsonText?_eq_some_iff h).mp hread
  obtain ⟨value, hvalue, hjson⟩ := lastOf_of_pairsOf hpairs hlast
  rw [hjson]
  exact get?_ofList_eq_some_iff.mpr hvalue

/-- **All ways to build a record.**  Pairs written in place, in a chain or at once give one
record: it has the value of a name from the last pair of this name, no other names, and each
of them once.  From a text of an object, whatever way it is spelled in, a record is read
exactly where every member presents a value, also those that are written over; and it is
the record of the pairs, in order. -/
theorem built_alike :
    (∀ pairs : List (String × Value),
      ((writeAll pairs).run empty).2 = ofList pairs ∧ chained pairs = ofList pairs ∧
      (∀ name,
        (∀ value, (ofList pairs).get? name = some value ↔ LastOf pairs name value) ∧
        ((ofList pairs).get? name = none ↔ name ∉ pairs.map Prod.fst)) ∧
      (ofList pairs).size = (pairs.map Prod.fst).toFinset.card) ∧
    ∀ (text : String) (members : List (String × Json)),
      Spelled (objectOf members).tokens text.toList →
      ((∃ record, ofJsonText? text = some record) ↔
        ∀ m ∈ members, ∃ value, Value.ofJson? m.2 = some value) ∧
      ∀ record, ofJsonText? text = some record ↔
        ∃ pairs, PairsOf members pairs ∧ record = ofList pairs := by
  refine ⟨fun pairs => ⟨writeAll_run pairs empty, chained_eq pairs, fun name => ?_,
    size_ofList pairs⟩, fun text members h => ⟨?_, fun record => ofJsonText?_eq_some_iff h⟩⟩
  · exact ⟨fun value => get?_ofList_eq_some_iff, get?_ofList_eq_none_iff⟩
  · rw [← exists_pairsOf_iff]
    simp only [ofJsonText?_eq_some_iff h]
    constructor
    · intro hread
      obtain ⟨-, pairs, hpairs, -⟩ := hread
      exact ⟨pairs, hpairs⟩
    · intro hread
      obtain ⟨pairs, hpairs⟩ := hread
      exact ⟨ofList pairs, pairs, hpairs, rfl⟩

/-- The names of these two members are spelled in two ways, and are one. -/
theorem built_alike_escaped :
    ofJsonText? "\x7b\"a\":1,\"\\u0061\":\"b\"\x7d" = some (ofList [("a", .text "b")]) := by
  let members : List (String × Json) :=
    [("a", .scalar (.number ⟨false, 1, [], none⟩)), ("a", .text "b")]
  have hspelled : Spelled (objectOf members).tokens
      "\x7b\"a\":1,\"\\u0061\":\"b\"\x7d".toList := spelled_of_tokensOf? (by decide +kernel)
  have hpairs : PairsOf members [("a", .integer 1), ("a", .text "b")] :=
    .cons ⟨rfl, by decide⟩ (.cons ⟨rfl, rfl⟩ .nil)
  exact ((built_alike.2 _ members hspelled).2 _).mpr ⟨_, hpairs, rfl⟩

end Record

end RuleEngine
