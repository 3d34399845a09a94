import Mathlib.Data.Finset.Card
import Mathlib.Data.List.Dedup
import RuleEngine.Proofs.SharedCache

/-!
# What a cache remembers of its calls

Calls reach a cache one after another: for the rule of a text, for the verdict of that
rule on a record, or to empty the cache.  All that matters of them afterwards is which
texts have been asked for since the cache was last emptied.  It is emptied by the call
that says so, and by every call for a text that is new to a full cache; the text of such
a call is the first one asked for after it.

* `Cache.Call`, `Cache.run` — calls, and what they leave;
* `Cache.Resets`, `Cache.SinceReset` — the calls that empty a cache, and those since the
  last one that did;
* `Cache.texts_call` — the texts after one call;
* `Cache.texts_run` — the texts after all of them, those since the last reset;
* `Cache.size_run_of_nodup` — how far different texts fill a cache;
* `Cache.run_remembers` — all of this about any run from the empty cache.
-/

namespace RuleEngine

namespace Cache

/-- A call to a cache. -/
inductive Call where
  /-- for the rule of a text -/
  | ask (text : String)
  /-- for the verdict of that rule on a record -/
  | judge (text : String) (record : Record)
  /-- to empty the cache -/
  | clear

/-- The text that a call asks for. -/
def Call.text? : Call → Option String
  | ask text => some text
  | judge text _ => some text
  | clear => none

/-- The texts that calls ask for, in order. -/
def requested (calls : List Call) : List String := calls.filterMap Call.text?

/-- The cache after a call. -/
def call (cache : Cache) : Call → Cache
  | .ask text => (cache.request text).2
  | .judge text record => (cache.verdict record text).2
  | .clear => empty

/-- The cache after calls, one after another. -/
def run (cache : Cache) (calls : List Call) : Cache := calls.foldl call cache

/-- A call that empties the cache: it asks for nothing else, or for a text that is new to
a full cache. -/
def Resets (cache : Cache) (call : Call) : Prop :=
  ∀ text ∈ call.text?, cache.find? text = none ∧ cache.size = capacity

/-- The calls of a run from the empty cache since the last that emptied it, and that one
itself.  Where none did, these are all of them. -/
structure SinceReset (before since : List Call) : Prop where
  opening : before ≠ [] → ∃ first rest, since = first :: rest ∧ (run empty before).Resets first
  later : ∀ earlier next rest, since = earlier ++ next :: rest → earlier ≠ [] →
    ¬ (run empty (before ++ earlier)).Resets next

/-! ## One call -/

/-- The last call of a run is made to the cache that the calls before it left. -/
theorem run_concat (cache : Cache) (calls : List Call) (next : Call) :
    cache.run (calls ++ [next]) = (cache.run calls).call next := by
  rw [run, List.foldl_append, List.foldl_cons, List.foldl_nil, run]

theorem requested_append (calls later : List Call) :
    requested (calls ++ later) = requested calls ++ requested later := List.filterMap_append

/-- A call with a text asks for this text. -/
theorem requested_singleton {next : Call} {text : String} (h : next.text? = some text) :
    requested [next] = [text] := by
  rw [requested, List.filterMap_cons_some h, List.filterMap_nil]

/-- A verdict asks for the rule of its text, whatever the verdict is. -/
theorem snd_verdict (cache : Cache) (record : Record) (text : String) :
    (cache.verdict record text).2 = (cache.request text).2 := rfl

/-- What a call does to the cache depends on its text only. -/
theorem call_eq {cache : Cache} {next : Call} {text : String} (h : next.text? = some text) :
    cache.call next = (cache.request text).2 := by
  cases next with
  | ask asked =>
      rw [call, Option.some.inj h]
  | judge asked record =>
      rw [call, snd_verdict, Option.some.inj h]
  | clear => cases h

/-- A text that is found is answered from the cache, which stays as it is. -/
theorem request_of_found {cache : Cache} {text : String} {rule : Rule}
    (h : cache.find? text = some rule) : cache.request text = (rule, cache) := by
  rw [request, h]

/-- A text that is not found is read and stored, alone where the cache was full. -/
theorem request_of_missing {cache : Cache} {text : String} (h : cache.find? text = none) :
    (cache.request text).2 =
      if capacity ≤ cache.size then ⟨[(text, .ofText text)]⟩
      else ⟨(text, .ofText text) :: cache.entries⟩ := by
  have hnot : ¬ (cache.find? text).isSome = true := by simp [h]
  rw [request, h]
  dsimp only
  rw [store, if_neg hnot]

namespace Sound

/-- Asking for a rule keeps a cache sound. -/
theorem request {cache : Cache} (h : cache.Sound) (text : String) :
    (cache.request text).2.Sound := by
  unfold Cache.request
  split
  · exact h
  · exact h.store text

/-- Every text is answered with its own rule, which is kept afterwards. -/
theorem fst_request {cache : Cache} (h : cache.Sound) (text : String) :
    (cache.request text).1 = .ofText text := by
  unfold Cache.request
  split
  · rename_i rule hfound
    exact h.find?_eq hfound
  · rfl

/-- A text that was asked for is found afterwards, with its own rule. -/
theorem find?_request {cache : Cache} (h : cache.Sound) (text : String) :
    (cache.request text).2.find? text = some (.ofText text) := by
  cases hfind : cache.find? text with
  | some rule =>
      rw [request_of_found hfind, hfind, h.find?_eq hfind]
  | none =>
      rw [request_of_missing hfind]
      split <;> simp [find?]

/-- Every call keeps a cache sound. -/
theorem call {cache : Cache} (h : cache.Sound) (next : Call) : (cache.call next).Sound := by
  cases next with
  | ask text => exact h.request text
  | judge text record => exact h.request text
  | clear => exact .empty

/-- **A run of calls keeps a cache sound,** whatever the calls are. -/
theorem run {cache : Cache} (h : cache.Sound) (calls : List Call) : (cache.run calls).Sound := by
  induction calls generalizing cache with
  | nil => exact h
  | cons next rest ih => exact ih (h.call next)

end Sound

/-! ## The texts of a cache -/

/-- The texts that rules are kept under. -/
def texts (cache : Cache) : Finset String := (cache.entries.map (·.1)).toFinset

/-- A text is among those of a cache where something is found under it. -/
theorem mem_texts_iff {cache : Cache} {text : String} :
    text ∈ cache.texts ↔ cache.find? text ≠ none := by
  rw [texts, List.mem_toFinset, Ne, find?_eq_none_iff, not_not]

/-- A sound cache keeps as many rules as it has texts. -/
theorem Sound.size_eq {cache : Cache} (h : cache.Sound) : cache.size = cache.texts.card := by
  rw [texts, List.toFinset_card_of_nodup h.nodup, List.length_map, size]

/-- A sound cache finds their own rules under its texts, and nothing elsewhere. -/
theorem Sound.find?_eq_ite {cache : Cache} (h : cache.Sound) (text : String) :
    cache.find? text = if text ∈ cache.texts then some (.ofText text) else none := by
  cases hfind : cache.find? text with
  | none => rw [if_neg (fun hmem => mem_texts_iff.mp hmem hfind)]
  | some rule =>
      have hmem : text ∈ cache.texts := mem_texts_iff.mpr (by simp [hfind])
      rw [if_pos hmem, h.find?_eq hfind]

/-- A call for a text that empties the cache leaves this text alone in it, and one that
does not adds it. -/
theorem texts_call_of_text {cache : Cache} (h : cache.Sound) {next : Call} {text : String}
    (htext : next.text? = some text) :
    (cache.Resets next → (cache.call next).texts = {text}) ∧
    (¬ cache.Resets next → (cache.call next).texts = insert text cache.texts) := by
  have hresets : cache.Resets next ↔ cache.find? text = none ∧ cache.size = capacity := by
    simp [Resets, htext]
  rw [hresets, call_eq htext]
  cases hfind : cache.find? text with
  | some rule =>
      have hmem : text ∈ cache.texts := mem_texts_iff.mpr (by simp [hfind])
      rw [request_of_found hfind, Finset.insert_eq_of_mem hmem]
      exact ⟨fun hreset => (Option.some_ne_none rule hreset.1).elim, fun _ => rfl⟩
  | none =>
      rw [request_of_missing hfind]
      constructor
      · rintro ⟨-, hfull⟩
        rw [if_pos hfull.ge]
        rfl
      · intro hnot
        have hroom : ¬ capacity ≤ cache.size :=
          fun hfull => hnot ⟨rfl, Nat.le_antisymm h.size_le hfull⟩
        rw [if_neg hroom]
        exact List.toFinset_cons

/-- **The texts after a call.**  A call adds its text, if it has one, to what was there,
or to nothing where it empties the cache. -/
theorem texts_call {cache : Cache} (h : cache.Sound) (next : Call) :
    (cache.Resets next → (cache.call next).texts = (requested [next]).toFinset) ∧
    (¬ cache.Resets next →
      (cache.call next).texts = (requested [next]).toFinset ∪ cache.texts) := by
  cases htext : next.text? with
  | some text =>
      rw [requested_singleton htext, List.toFinset_cons, List.toFinset_nil, insert_empty_eq,
        ← Finset.insert_eq]
      exact texts_call_of_text h htext
  | none =>
      cases next with
      | ask text => cases htext
      | judge text record => cases htext
      | clear =>
          have hresets : cache.Resets .clear := fun text hmem => by cases hmem
          exact ⟨fun _ => rfl, fun hnot => absurd hresets hnot⟩

/-! ## Runs -/

/-- A run from the empty cache leaves a sound one. -/
theorem sound_run (calls : List Call) : (run empty calls).Sound := Sound.empty.run calls

/-- The calls since the last reset go on with every call that is none. -/
theorem SinceReset.concat {before since : List Call} {next : Call} (h : SinceReset before since)
    (hnext : ¬ (run empty (before ++ since)).Resets next) :
    SinceReset before (since ++ [next]) := by
  constructor
  · intro hbefore
    obtain ⟨first, rest, rfl, hfirst⟩ := h.opening hbefore
    exact ⟨first, rest ++ [next], rfl, hfirst⟩
  · intro earlier later rest hsplit hearlier
    rcases List.eq_nil_or_concat rest with rfl | ⟨rest', last, rfl⟩
    · obtain ⟨rfl, hlast⟩ := List.append_inj' hsplit rfl
      rw [List.singleton_inj] at hlast
      rwa [← hlast]
    · have hparts : since ++ [next] = (earlier ++ later :: rest') ++ [last] := by
        rw [hsplit, List.concat_eq_append, List.append_assoc, List.cons_append]
      obtain ⟨hsince, -⟩ := List.append_inj' hparts rfl
      exact h.later earlier later rest' hsince hearlier

/-- A reset is the last one until the next. -/
theorem SinceReset.singleton {before : List Call} {next : Call}
    (h : before ≠ [] → (run empty before).Resets next) : SinceReset before [next] := by
  constructor
  · intro hbefore
    exact ⟨next, [], rfl, h hbefore⟩
  · intro earlier later rest hsplit hearlier
    cases earlier with
    | nil => exact absurd rfl hearlier
    | cons first earlier => simp at hsplit

/-- Every run has a last reset, or none. -/
theorem exists_sinceReset (calls : List Call) :
    ∃ before since, calls = before ++ since ∧ SinceReset before since := by
  induction calls using List.reverseRecOn with
  | nil => exact ⟨[], [], rfl, ⟨fun h => absurd rfl h, fun _ _ _ h => by simp at h⟩⟩
  | append_singleton calls next ih =>
      obtain ⟨before, since, rfl, hsince⟩ := ih
      by_cases hreset : (run empty (before ++ since)).Resets next
      · exact ⟨before ++ since, [next], rfl, .singleton fun _ => hreset⟩
      · exact ⟨before, since ++ [next], by rw [List.append_assoc], hsince.concat hreset⟩

/-- The calls since a reset but for the last of them are calls since that reset. -/
theorem SinceReset.of_concat {before since : List Call} {next : Call}
    (h : SinceReset before (since ++ [next])) (hne : since ≠ []) : SinceReset before since := by
  constructor
  · intro hbefore
    obtain ⟨first, rest, hsplit, hfirst⟩ := h.opening hbefore
    obtain ⟨head, tail, rfl⟩ := List.exists_cons_of_ne_nil hne
    rw [List.cons_append, List.cons.injEq] at hsplit
    exact ⟨head, tail, rfl, hsplit.1 ▸ hfirst⟩
  · intro earlier later rest hsplit hearlier
    refine h.later earlier later (rest ++ [next]) ?_ hearlier
    rw [hsplit, List.append_assoc, List.cons_append]

/-- **The texts after a run** are those asked for since the last reset. -/
theorem texts_run {before since : List Call} (h : SinceReset before since) :
    (run empty (before ++ since)).texts = (requested since).toFinset := by
  -- along the calls since the reset; the first one finds the cache to be emptied, or empty
  induction since using List.reverseRecOn with
  | nil =>
      have hbefore : before = [] := by
        by_contra hne
        obtain ⟨first, rest, hsplit, -⟩ := h.opening hne
        cases hsplit
      subst hbefore
      rfl
  | append_singleton since next ih =>
      rw [← List.append_assoc, run_concat]
      by_cases hne : since = []
      · subst hne
        rw [List.append_nil]
        by_cases hreset : (run empty before).Resets next
        · rw [(texts_call (sound_run before) next).1 hreset, List.nil_append]
        · have hbefore : before = [] := by
            by_contra hbefore
            obtain ⟨first, rest, hsplit, hfirst⟩ := h.opening hbefore
            obtain ⟨rfl, -⟩ := List.cons.inj hsplit
            exact hreset hfirst
          subst hbefore
          rw [List.nil_append, (texts_call (sound_run []) next).2 hreset]
          exact Finset.union_empty _
      · have hlater : ¬ (run empty (before ++ since)).Resets next := h.later since next [] rfl hne
        rw [(texts_call (sound_run (before ++ since)) next).2 hlater, ih (h.of_concat hne),
          requested_append, List.toFinset_append, Finset.union_comm]

/-- A run keeps no text that was not asked for. -/
theorem texts_run_subset (calls : List Call) :
    (run empty calls).texts ⊆ (requested calls).toFinset := by
  obtain ⟨before, since, rfl, hsince⟩ := exists_sinceReset calls
  rw [texts_run hsince, requested_append, List.toFinset_append]
  exact Finset.subset_union_right

/-- A text that was not asked for is not found. -/
theorem find?_run_of_not_requested {calls : List Call} {text : String}
    (h : text ∉ requested calls) : (run empty calls).find? text = none := by
  by_contra hfound
  exact h (List.mem_toFinset.mp (texts_run_subset calls (mem_texts_iff.mpr hfound)))

/-- A text that is new to a cache is one more in it, or the only one where it was full. -/
theorem Sound.size_request {cache : Cache} (h : cache.Sound) {text : String}
    (hnew : cache.find? text = none) :
    (cache.request text).2.size = cache.size % capacity + 1 := by
  rw [request_of_missing hnew]
  split
  · rename_i hfull
    rw [Nat.le_antisymm h.size_le hfull, Nat.mod_self]
    rfl
  · rename_i hroom
    rw [Nat.mod_eq_of_lt (Nat.lt_of_not_le hroom)]
    rfl

/-- **Different texts fill the cache** one by one, and from one on again when it is
full. -/
theorem size_run_of_nodup {calls : List Call} (hask : ∀ call ∈ calls, call ≠ .clear)
    (hnodup : (requested calls).Nodup) (hne : calls ≠ []) :
    (run empty calls).size = (calls.length - 1) % capacity + 1 := by
  induction calls using List.reverseRecOn with
  | nil => exact absurd rfl hne
  | append_singleton calls next ih =>
      obtain ⟨text, htext⟩ : ∃ text, next.text? = some text := by
        cases next with
        | ask text => exact ⟨text, rfl⟩
        | judge text record => exact ⟨text, rfl⟩
        | clear => exact absurd rfl (hask .clear (by simp))
      rw [requested_append, requested_singleton htext] at hnodup
      have hnew : text ∉ requested calls := fun hmem =>
        List.disjoint_of_nodup_append hnodup hmem (List.mem_singleton_self text)
      have hsize : (run empty calls).size % capacity = calls.length % capacity := by
        by_cases hnil : calls = []
        · rw [hnil]
          rfl
        · have hpos : 0 < calls.length := List.length_pos_of_ne_nil hnil
          rw [ih (fun call hmem => hask call (List.mem_append_left _ hmem))
            hnodup.of_append_left hnil]
          simp only [capacity]
          omega
      rw [run_concat, call_eq htext,
        (sound_run calls).size_request (find?_run_of_not_requested hnew), hsize,
        List.length_append, List.length_singleton, Nat.add_sub_cancel]

/-- **A cache remembers the texts since its last reset.**  Whatever calls are made of the
empty cache, there is a last reset among them or none; the rules that are kept are those
of the texts asked for since, and their number is that of these texts.  A call for a text
that is kept changes nothing, be the cache full or not; a call for a verdict keeps the
rule of its text, be the verdict a fault or not; and a text that is new to a full cache is
alone in it afterwards.  Different texts, and no call to empty the cache, fill it one by
one, and from one on again when it is full. -/
theorem run_remembers (calls : List Call) :
    (∃ before since, calls = before ++ since ∧ SinceReset before since) ∧
    (∀ before since, calls = before ++ since → SinceReset before since →
      (∀ text, (run empty calls).find? text =
        if text ∈ requested since then some (.ofText text) else none) ∧
      (run empty calls).size = (requested since).toFinset.card) ∧
    (∀ next text rule, next.text? = some text → (run empty calls).find? text = some rule →
      run empty (calls ++ [next]) = run empty calls) ∧
    (∀ text record, ((run empty calls).verdict record text).1 = (Rule.ofText text).verdict record ∧
      (run empty (calls ++ [.judge text record])).find? text = some (.ofText text)) ∧
    (∀ next text, next.text? = some text → (run empty calls).find? text = none →
      (run empty calls).size = capacity →
      (run empty (calls ++ [next])).entries = [(text, .ofText text)]) ∧
    ((∀ call ∈ calls, call ≠ .clear) → (requested calls).Nodup → calls ≠ [] →
      (run empty calls).size = (calls.length - 1) % capacity + 1) := by
  have hsound := sound_run calls
  refine ⟨exists_sinceReset calls, ?_, ?_, ?_, ?_, size_run_of_nodup⟩
  · rintro before since rfl hsince
    refine ⟨fun text => ?_, ?_⟩
    · rw [hsound.find?_eq_ite, texts_run hsince]
      simp only [List.mem_toFinset]
    · rw [hsound.size_eq, texts_run hsince]
  · intro next text rule htext hfound
    rw [run_concat, call_eq htext, request_of_found hfound]
  · intro text record
    have hverdict : ((run empty calls).verdict record text).1 =
        ((run empty calls).request text).1.verdict record := rfl
    have htext : (Call.judge text record).text? = some text := rfl
    rw [hverdict, hsound.fst_request, run_concat, call_eq htext]
    exact ⟨rfl, hsound.find?_request text⟩
  · intro next text htext hmissing hfull
    rw [run_concat, call_eq htext, request_of_missing hmissing, if_pos hfull.ge]

end Cache

end RuleEngine
