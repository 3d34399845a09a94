import RuleEngine.Cache.Shared

/-!
# A shared cache is not seen

Between the look of a request and its change to the cache anything may happen:
others store the same rule, fill the cache or empty it.  What is stored then goes
into a cache that the request never looked at.  This does no harm, because of an
invariant of the cache and of every request on its way: each of them holds, for
its text, the rule of that text and no other.  And the bound is tested in the same
step that stores, whatever the cache was before.

* `Cache.Sound`, `Request.Sound`, `Shared.Sound` — the invariant;
* `Shared.Sound.step`, `Shared.sound_run` — a step keeps it, and so does a run;
* `Request.Ahead`, `Shared.AtStage.run` — no step of anybody sets a request back;
* `Shared.run_transparent` — what is stored, reported and answered in any run.
-/

namespace RuleEngine

/-- A cache keeps under each text its rule, once, and not too many of them. -/
structure Cache.Sound (cache : Cache) : Prop where
  rule_eq : ∀ entry ∈ cache.entries, entry.2 = Rule.ofText entry.1
  nodup : (cache.entries.map (·.1)).Nodup
  size_le : cache.size ≤ capacity

namespace Cache.Sound

theorem empty : Cache.empty.Sound := ⟨by simp [Cache.empty], by simp [Cache.empty], by decide⟩

/-- Only the rule of a text is found under it. -/
theorem find?_eq {cache : Cache} (h : cache.Sound) {text : String} {rule : Rule}
    (hfound : cache.find? text = some rule) : rule = .ofText text :=
  h.rule_eq _ (mem_of_find? hfound)

/-- Storing over an old entry takes its place, so that the cache does not grow. -/
theorem size_replaced_le {cache : Cache} {text : String} {rule : Rule}
    (h : (cache.find? text).isSome) :
    ((text, rule) :: cache.entries.filter fun entry => entry.1 ≠ text).length ≤ cache.size := by
  obtain ⟨old, hold⟩ := Option.isSome_iff_exists.mp h
  have hmem : (text, old) ∈ cache.entries := mem_of_find? hold
  have hlt : (cache.entries.filter fun entry => entry.1 ≠ text).length <
      cache.entries.length :=
    List.length_filter_lt_length_iff_exists.mpr ⟨(text, old), hmem, by simp⟩
  rw [List.length_cons, size]
  omega

/-- The rule of a text may be stored in any sound cache. -/
theorem store {cache : Cache} (h : cache.Sound) (text : String) :
    (cache.store text (.ofText text)).Sound := by
  refine ⟨?_, ?_, ?_⟩
  · intro entry hentry
    rcases mem_entries_store hentry with rfl | hold
    · rfl
    · exact h.rule_eq entry hold
  · unfold Cache.store
    split
    · have hnew : text ∉ (cache.entries.filter fun entry => entry.1 ≠ text).map (·.1) := by
        simp
      exact List.nodup_cons.mpr ⟨hnew, h.nodup.sublist (List.filter_sublist.map _)⟩
    · rename_i hmissing
      split
      · simp
      · have hnew : text ∉ cache.entries.map (·.1) :=
          find?_eq_none_iff.mp (by simpa using hmissing)
        exact List.nodup_cons.mpr ⟨hnew, h.nodup⟩
  · unfold Cache.store
    split
    · rename_i hfound
      exact Nat.le_trans (size_replaced_le hfound) h.size_le
    · split
      · show 1 ≤ capacity
        decide
      · rename_i hroom
        simp only [size, List.length_cons] at hroom ⊢
        omega

end Cache.Sound

namespace Request

/-- The rule that a request holds is the rule of its text, and the verdict that
it gives is the one of that rule. -/
def Sound (request : Request) : Prop :=
  match request.progress with
  | .asked => True
  | .missed rule => rule = .ofText request.text
  | .answered rule => rule = .ofText request.text
  | .judged verdict => ∃ record, request.record? = some record ∧
      verdict = (Rule.ofText request.text).verdict record

namespace Sound

variable {request : Request}

/-- What a request finds in a sound cache, or reads for itself, is the rule of its text. -/
theorem look {cache : Cache} (hcache : cache.Sound) (h : request.Sound) :
    (request.look cache).Sound := by
  unfold Request.look
  split
  · split
    · rename_i rule hfound
      exact hcache.find?_eq hfound
    · rfl
  · exact h

theorem stored (h : request.Sound) : request.stored.Sound := by
  unfold Request.stored
  split
  · rename_i rule hmissed
    simpa only [Sound, hmissed] using h
  · exact h

/-- The verdict that a sound request comes to is that of its rule. -/
theorem judge (h : request.Sound) : request.judge.Sound := by
  unfold Request.judge
  split
  · rename_i rule record hanswered hrecord
    have hrule : rule = .ofText request.text := by simpa only [Sound, hanswered] using h
    exact ⟨record, hrecord, by rw [hrule]⟩
  · exact h

/-- A rule that a request holds for its text may be stored in a sound cache. -/
theorem storeIn {cache : Cache} (hcache : cache.Sound) (h : request.Sound) :
    (request.storeIn cache).Sound := by
  unfold Request.storeIn
  split
  · rename_i rule hmissed
    have hrule : rule = .ofText request.text := by simpa only [Sound, hmissed] using h
    rw [hrule]
    exact hcache.store request.text
  · exact hcache

end Sound

end Request

namespace Shared

/-- The cache and all requests are sound, and no size above the bound has been
reported. -/
structure Sound (shared : Shared) : Prop where
  cache : shared.cache.Sound
  requests : ∀ request ∈ shared.requests, request.Sound
  sizes : ∀ size ∈ shared.sizes, size ≤ Cache.capacity

theorem sound_start : start.Sound :=
  ⟨.empty, by simp [start], by simp [start]⟩

/-- Some of the requests may have moved on, as long as they did it soundly. -/
theorem sound_of_mem_modify {requests : List Request} {f : Request → Request} {number : Nat}
    (hf : ∀ request, request.Sound → (f request).Sound)
    (h : ∀ request ∈ requests, request.Sound) :
    ∀ request ∈ requests.modify number f, request.Sound := by
  intro request hrequest
  obtain ⟨i, hi, rfl⟩ := List.mem_iff_getElem.mp hrequest
  rw [List.getElem_modify]
  have hi' : i < requests.length := by simpa using hi
  have hsound : requests[i].Sound := h _ (List.getElem_mem hi')
  split
  · exact hf _ hsound
  · exact hsound

/-- **One step keeps the invariant,** whoever makes it. -/
theorem Sound.step {shared : Shared} (h : shared.Sound) (step : Step) :
    (shared.step step).Sound := by
  cases step with
  | ask text record? =>
      refine ⟨h.cache, ?_, h.sizes⟩
      intro request hrequest
      rcases List.mem_append.mp hrequest with hold | hnew
      · exact h.requests request hold
      · rw [List.mem_singleton.mp hnew]
        trivial
  | look number =>
      exact ⟨h.cache, sound_of_mem_modify (fun _ hr => hr.look h.cache) h.requests, h.sizes⟩
  | store number =>
      refine ⟨?_, sound_of_mem_modify (fun _ hr => hr.stored) h.requests, h.sizes⟩
      show (shared.requests[number]?.elim shared.cache _).Sound
      cases hget : shared.requests[number]? with
      | none => exact h.cache
      | some request =>
          exact (h.requests request (List.mem_of_getElem? hget)).storeIn h.cache
  | judge number =>
      exact ⟨h.cache, sound_of_mem_modify (fun _ hr => hr.judge) h.requests, h.sizes⟩
  | size =>
      refine ⟨h.cache, h.requests, ?_⟩
      intro size hsize
      rcases List.mem_append.mp hsize with hold | hnew
      · exact h.sizes size hold
      · rw [List.mem_singleton.mp hnew]
        exact h.cache.size_le
  | clear => exact ⟨.empty, h.requests, h.sizes⟩

/-- **Every run keeps the invariant.** -/
theorem Sound.run {shared : Shared} (h : shared.Sound) (steps : List Step) :
    (shared.run steps).Sound := by
  induction steps generalizing shared with
  | nil => exact h
  | cons step rest ih => exact ih (h.step step)

/-- **Every run from the start leaves a sound cache and sound requests.** -/
theorem sound_run (steps : List Step) : (run start steps).Sound := sound_start.run steps

end Shared

/-! ## Requests come to their end -/

/-- How many of its steps a request has behind it. -/
def Progress.stage : Progress → Nat
  | .asked => 0
  | .missed _ => 1
  | .answered _ => 2
  | .judged _ => 3

namespace Request

/-- The same request, at the same point or later. -/
structure Ahead (request later : Request) : Prop where
  text : later.text = request.text
  record? : later.record? = request.record?
  stage : request.progress.stage ≤ later.progress.stage

theorem Ahead.refl (request : Request) : request.Ahead request := ⟨rfl, rfl, Nat.le_refl _⟩

/-- No look at the cache sets a request back. -/
theorem ahead_look (cache : Cache) (request : Request) : request.Ahead (request.look cache) := by
  unfold look
  split
  · rename_i hasked
    split
    · exact ⟨rfl, rfl, by simp [hasked, Progress.stage]⟩
    · exact ⟨rfl, rfl, by simp [hasked, Progress.stage]⟩
  · exact .refl request

/-- Its change of the cache does not set a request back. -/
theorem ahead_stored (request : Request) : request.Ahead request.stored := by
  unfold stored
  split
  · rename_i rule hmissed
    exact ⟨rfl, rfl, by simp [hmissed, Progress.stage]⟩
  · exact .refl request

/-- Its judgement does not set a request back. -/
theorem ahead_judge (request : Request) : request.Ahead request.judge := by
  unfold judge
  split
  · rename_i rule record hanswered hrecord
    exact ⟨rfl, rfl, by simp [hanswered, Progress.stage]⟩
  · exact .refl request

/-- Its look, its change of the cache and its judgement take a request to the
stages behind them. -/
theorem one_le_stage_look (cache : Cache) (request : Request) :
    1 ≤ (request.look cache).progress.stage := by
  unfold look
  cases hprogress : request.progress with
  | asked => cases hfind : cache.find? request.text <;> simp [Progress.stage]
  | missed rule => simp [hprogress, Progress.stage]
  | answered rule => simp [hprogress, Progress.stage]
  | judged verdict => simp [hprogress, Progress.stage]

theorem two_le_stage_stored {request : Request} (h : 1 ≤ request.progress.stage) :
    2 ≤ request.stored.progress.stage := by
  unfold stored
  cases hprogress : request.progress with
  | asked => simp [hprogress, Progress.stage] at h
  | missed rule => simp [Progress.stage]
  | answered rule => simp [hprogress, Progress.stage]
  | judged verdict => simp [hprogress, Progress.stage]

theorem three_le_stage_judge {request : Request} {record : Record}
    (h : 2 ≤ request.progress.stage) (hrecord : request.record? = some record) :
    3 ≤ request.judge.progress.stage := by
  unfold judge
  cases hprogress : request.progress with
  | asked => simp [hprogress, Progress.stage] at h
  | missed rule => simp [hprogress, Progress.stage] at h
  | answered rule => simp [hrecord, Progress.stage]
  | judged verdict => simp [hprogress, Progress.stage]

/-- A sound request that is through with the cache has the rule of its text. -/
theorem Sound.eq_answered {request : Request} (h : request.Sound)
    (hstage : 2 ≤ request.progress.stage) (hrecord : request.record? = none) :
    request = ⟨request.text, none, .answered (.ofText request.text)⟩ := by
  obtain ⟨text, record?, progress⟩ := request
  cases progress with
  | asked => simp [Progress.stage] at hstage
  | missed rule => simp [Progress.stage] at hstage
  | answered rule =>
      have hrule : rule = .ofText text := h
      subst hrecord hrule
      rfl
  | judged verdict =>
      obtain ⟨record, hsome, -⟩ := h
      rw [hrecord] at hsome
      cases hsome

/-- A sound request that is through with everything has the verdict of the rule
of its text. -/
theorem Sound.eq_judged {request : Request} (h : request.Sound)
    (hstage : 3 ≤ request.progress.stage) {record : Record}
    (hrecord : request.record? = some record) :
    request = ⟨request.text, some record,
      .judged ((Rule.ofText request.text).verdict record)⟩ := by
  obtain ⟨text, record?, progress⟩ := request
  cases progress with
  | asked => simp [Progress.stage] at hstage
  | missed rule => simp [Progress.stage] at hstage
  | answered rule => simp [Progress.stage] at hstage
  | judged verdict =>
      obtain ⟨found, hfound, hverdict⟩ := h
      subst hrecord
      cases hfound
      rw [hverdict]

end Request

namespace Shared

/-- The request of a number is there, for a text and a record, and has come to a
stage at least. -/
def AtStage (requests : List Request) (number : Nat) (text : String)
    (record? : Option Record) (stage : Nat) : Prop :=
  ∃ request, requests[number]? = some request ∧ request.text = text ∧
    request.record? = record? ∧ stage ≤ request.progress.stage

section

variable {shared : Shared} {requests : List Request} {number : Nat} {text : String}
  {record? : Option Record} {stage : Nat}

/-- When some request takes a step, each one is where it was or further on. -/
theorem AtStage.modify {f : Request → Request}
    (hf : ∀ request : Request, request.Ahead (f request))
    (h : AtStage requests number text record? stage) (other : Nat) :
    AtStage (requests.modify other f) number text record? stage := by
  obtain ⟨request, hget, htext, hrecord, hstage⟩ := h
  by_cases hother : other = number
  · have hahead := hf request
    exact ⟨f request, by simp [hget, hother],
      hahead.text.trans htext, hahead.record?.trans hrecord,
      Nat.le_trans hstage hahead.stage⟩
  · exact ⟨request, by simp [hget, hother], htext, hrecord, hstage⟩

/-- A request's own step takes it on. -/
theorem AtStage.advance {f : Request → Request} {later : Nat}
    (hf : ∀ request : Request, request.Ahead (f request))
    (hlater : ∀ request : Request, stage ≤ request.progress.stage →
      request.record? = record? → later ≤ (f request).progress.stage)
    (h : AtStage requests number text record? stage) :
    AtStage (requests.modify number f) number text record? later := by
  obtain ⟨request, hget, htext, hrecord, hstage⟩ := h
  have hahead := hf request
  exact ⟨f request, by simp [hget], hahead.text.trans htext,
    hahead.record?.trans hrecord, hlater request hstage hrecord⟩

/-- **No step sets a request back,** whoever makes it. -/
theorem AtStage.step (h : AtStage shared.requests number text record? stage) (step : Step) :
    AtStage (shared.step step).requests number text record? stage := by
  cases step with
  | ask newText newRecord? =>
      obtain ⟨request, hget, hrest⟩ := h
      refine ⟨request, ?_, hrest⟩
      obtain ⟨hlt, -⟩ := List.getElem?_eq_some_iff.mp hget
      show (shared.requests ++ _)[number]? = some request
      rw [List.getElem?_append_left hlt, hget]
  | look other => exact h.modify (Request.ahead_look shared.cache) other
  | store other => exact h.modify Request.ahead_stored other
  | judge other => exact h.modify Request.ahead_judge other
  | size => exact h
  | clear => exact h

/-- **No run sets a request back,** whoever takes its steps. -/
theorem AtStage.run (h : AtStage shared.requests number text record? stage)
    (steps : List Step) : AtStage (shared.run steps).requests number text record? stage := by
  induction steps generalizing shared with
  | nil => exact h
  | cons step rest ih => exact ih (h.step step)

/-- A request that has looked, and some time later stored, is through with the
cache. -/
theorem AtStage.look_store (h : AtStage shared.requests number text record? stage)
    (between later : List Step) :
    AtStage (shared.run (.look number :: between ++ .store number :: later)).requests
      number text record? 2 := by
  have hlook : AtStage (shared.step (.look number)).requests number text record? 1 :=
    h.advance (Request.ahead_look shared.cache) fun request _ _ =>
      request.one_le_stage_look shared.cache
  have hstore : AtStage (((shared.step (.look number)).run between).step
      (.store number)).requests number text record? 2 :=
    (hlook.run between).advance Request.ahead_stored fun _ hstage _ =>
      Request.two_le_stage_stored hstage
  rw [List.cons_append, run_cons, run_append, run_cons]
  exact hstore.run later

/-- A request for a verdict that then judges its rule is through with
everything. -/
theorem AtStage.judge {record : Record}
    (h : AtStage shared.requests number text (some record) 2) (later : List Step) :
    AtStage (shared.run (.judge number :: later)).requests number text (some record) 3 := by
  have hjudge : AtStage (shared.step (.judge number)).requests number text (some record) 3 :=
    h.advance Request.ahead_judge fun _ => Request.three_le_stage_judge
  exact hjudge.run later

end

/-- **A shared cache answers as if there were none.**  Whoever makes steps, and in
whatever order, from the empty cache on: what is kept under a text is the rule of
that text, kept once; neither the cache nor any size reported of it is above the
bound; a request that has been answered has the rule of its text, and one that has
been judged the verdict of that rule on its record, be it a fault.  And whatever
others do in between, a request that looks and then stores is answered, and one
that then judges has its verdict. -/
theorem run_transparent (steps : List Step) :
    ((∀ entry ∈ (run start steps).cache.entries, entry.2 = Rule.ofText entry.1) ∧
      ((run start steps).cache.entries.map (·.1)).Nodup) ∧
    ((run start steps).cache.size ≤ Cache.capacity ∧
      ∀ size ∈ (run start steps).sizes, size ≤ Cache.capacity) ∧
    (∀ (number : Nat) (text : String) (record? : Option Record) (rule : Rule),
      (run start steps).requests[number]? = some ⟨text, record?, .answered rule⟩ →
      rule = .ofText text) ∧
    (∀ (number : Nat) (text : String) (record? : Option Record) (verdict : Verdict),
      (run start steps).requests[number]? = some ⟨text, record?, .judged verdict⟩ →
      ∃ record, record? = some record ∧ verdict = (Rule.ofText text).verdict record) ∧
    (∀ (number : Nat) (text : String) (progress : Progress) (between later : List Step),
      (run start steps).requests[number]? = some ⟨text, none, progress⟩ →
      (run start (steps ++ (.look number :: between ++
          .store number :: later))).requests[number]? =
        some ⟨text, none, .answered (.ofText text)⟩) ∧
    (∀ (number : Nat) (text : String) (record : Record) (progress : Progress)
        (between meanwhile later : List Step),
      (run start steps).requests[number]? = some ⟨text, some record, progress⟩ →
      (run start (steps ++ (.look number :: between ++ .store number ::
          (meanwhile ++ .judge number :: later)))).requests[number]? =
        some ⟨text, some record, .judged ((Rule.ofText text).verdict record)⟩) := by
  have hsound := sound_run steps
  refine ⟨⟨hsound.cache.rule_eq, hsound.cache.nodup⟩, ⟨hsound.cache.size_le, hsound.sizes⟩,
    ?_, ?_, ?_, ?_⟩
  · intro number text record? rule hget
    exact hsound.requests _ (List.mem_of_getElem? hget)
  · intro number text record? verdict hget
    exact hsound.requests _ (List.mem_of_getElem? hget)
  · intro number text progress between later hget
    have hhere : AtStage (run start steps).requests number text none 0 :=
      ⟨_, hget, rfl, rfl, Nat.zero_le _⟩
    obtain ⟨request, hdone, htext, hrecord, hstage⟩ := hhere.look_store between later
    have hrequest : request.Sound :=
      ((hsound.run _).requests request (List.mem_of_getElem? hdone))
    rw [run_append, hdone, ← htext, hrequest.eq_answered hstage hrecord]
  · intro number text record progress between meanwhile later hget
    have hhere : AtStage (run start steps).requests number text (some record) 0 :=
      ⟨_, hget, rfl, rfl, Nat.zero_le _⟩
    have hanswered := hhere.look_store between meanwhile
    obtain ⟨request, hdone, htext, hrecord, hstage⟩ := hanswered.judge later
    have hrequest : request.Sound := by
      have hrun := (hsound.run (.look number :: between ++ .store number :: meanwhile)).run
        (.judge number :: later)
      exact hrun.requests request (List.mem_of_getElem? hdone)
    have hsteps : (Step.look number :: between ++ .store number ::
        (meanwhile ++ .judge number :: later)) =
        (.look number :: between ++ .store number :: meanwhile) ++ .judge number :: later := by
      simp
    rw [run_append, hsteps, run_append, hdone, ← htext, hrequest.eq_judged hstage hrecord]

/-- Two callers look before either of them stores.  Both are answered, one has its verdict,
and the rule that they both read is kept once. -/
example :
    let record := Record.empty.insert "a" (.text "b")
    let shared := run start [.ask "a == 'b'" none, .ask "a == 'b'" (some record), .look 0,
      .look 1, .store 1, .store 0, .judge 1, .size]
    (shared.cache.entries = [("a == 'b'", .operand "a == 'b'")] ∧ shared.sizes = [1]) ∧
      shared.requests = [⟨"a == 'b'", none, .answered (.operand "a == 'b'")⟩,
        ⟨"a == 'b'", some record, .judged (.ok true)⟩] :=
  ⟨by decide, by cbv⟩

end Shared

end RuleEngine
