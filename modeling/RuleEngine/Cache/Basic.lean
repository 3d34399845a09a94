import RuleEngine.Rule.Split
import RuleEngine.Rule.Verdict

/-!
# The cache of rules

Rules that were read from a text are kept under it, so that asking for the same
text again does not read it again.  The cache holds a bounded number of rules:
storing a new text in a full cache empties it first.

* `Cache.find?`, `Cache.store` — what one look at the cache and one change to it
  do;
* `Cache.request` — the rule of a text through the cache;
* `Cache.mem_of_find?`, `Cache.mem_entries_store` — what is found was kept, and
  what is kept was stored.
-/

namespace RuleEngine

/-- Rules under the texts that they were read from. -/
structure Cache where
  entries : List (String × Rule)
  deriving Repr

namespace Cache

/-- How many rules the cache holds at most. -/
def capacity : Nat := 256

/-- The cache without rules. -/
def empty : Cache := ⟨[]⟩

/-- How many rules the cache holds. -/
def size (cache : Cache) : Nat := cache.entries.length

/-- The rule kept under a text. -/
def find? (cache : Cache) (text : String) : Option Rule :=
  (cache.entries.find? fun entry => entry.1 = text).map (·.2)

/-- The cache with a rule under a text.  A rule that was there before is
replaced; a text that is new to a full cache is alone in it afterwards. -/
def store (cache : Cache) (text : String) (rule : Rule) : Cache :=
  if (cache.find? text).isSome then
    ⟨(text, rule) :: cache.entries.filter fun entry => entry.1 ≠ text⟩
  else if capacity ≤ cache.size then ⟨[(text, rule)]⟩
  else ⟨(text, rule) :: cache.entries⟩

/-- The rule of a text, taken from the cache or read and stored, and the cache
afterwards. -/
def request (cache : Cache) (text : String) : Rule × Cache :=
  match cache.find? text with
  | some rule => (rule, cache)
  | none =>
      let rule := Rule.ofText text
      (rule, cache.store text rule)

/-- The verdict of a rule text on a record through the cache, and the cache
afterwards. -/
def verdict (cache : Cache) (record : Record) (text : String) : Verdict × Cache :=
  let (rule, after) := cache.request text
  (rule.verdict record, after)

/-- What is found under a text is an entry for it. -/
theorem mem_of_find? {cache : Cache} {text : String} {rule : Rule}
    (h : cache.find? text = some rule) : (text, rule) ∈ cache.entries := by
  obtain ⟨entry, hentry, rfl⟩ := Option.map_eq_some_iff.mp h
  have htext : entry.1 = text := by simpa using List.find?_some hentry
  rw [← htext]
  exact List.mem_of_find?_eq_some hentry

/-- A text is not found exactly where no rule is kept under it. -/
theorem find?_eq_none_iff {cache : Cache} {text : String} :
    cache.find? text = none ↔ text ∉ cache.entries.map (·.1) := by
  rw [find?, Option.map_eq_none_iff, List.find?_eq_none, List.mem_map]
  constructor
  · rintro h ⟨entry, hentry, htext⟩
    exact h entry hentry (by simpa using htext)
  · intro h entry hentry htext
    exact h ⟨entry, hentry, by simpa using htext⟩

/-- Storing keeps nothing but the new entry and old ones. -/
theorem mem_entries_store {cache : Cache} {text : String} {rule : Rule}
    {entry : String × Rule} (h : entry ∈ (cache.store text rule).entries) :
    entry = (text, rule) ∨ entry ∈ cache.entries := by
  unfold store at h
  split at h
  · rcases List.mem_cons.mp h with h | h
    · exact .inl h
    · exact .inr (List.mem_filter.mp h).1
  · split at h
    · exact .inl (List.mem_singleton.mp h)
    · exact List.mem_cons.mp h

end Cache

end RuleEngine
