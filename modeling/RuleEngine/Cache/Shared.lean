import RuleEngine.Cache.Basic

/-!
# The cache shared by many callers

Callers use one cache at the same time.  What a caller does to it happens in
single steps that nothing interrupts: a look at the cache, a change to it.
Between the look in vain and the change that follows it the caller reads the
rule by itself, while others go on; so when it stores the rule, the cache need
not be the one it looked at.

* `Request` — a call for the rule of a text, or for its verdict on a record, and
  how far it has come;
* `Shared` — the cache with every request made so far;
* `Shared.step`, `Shared.run` — one step of somebody, and any sequence of them.
-/

namespace RuleEngine

/-- How far a request has come. -/
inductive Progress where
  /-- it has not looked at the cache yet -/
  | asked
  /-- it looked in vain, and has read the rule -/
  | missed (rule : Rule)
  /-- it has its rule -/
  | answered (rule : Rule)
  /-- its rule has been judged -/
  | judged (verdict : Verdict)

/-- A request for the rule of a text, or, with a record, for the verdict of that
rule on it. -/
structure Request where
  text : String
  record? : Option Record
  progress : Progress

namespace Request

/-- A request after its look at the cache. -/
def look (cache : Cache) (request : Request) : Request :=
  match request.progress with
  | .asked =>
      match cache.find? request.text with
      | some rule => { request with progress := .answered rule }
      | none => { request with progress := .missed (.ofText request.text) }
  | _ => request

/-- A request after the rule that it read is in the cache. -/
def stored (request : Request) : Request :=
  match request.progress with
  | .missed rule => { request with progress := .answered rule }
  | _ => request

/-- The cache after a request put the rule that it read there. -/
def storeIn (cache : Cache) (request : Request) : Cache :=
  match request.progress with
  | .missed rule => cache.store request.text rule
  | _ => cache

/-- A request after its rule is judged, if there is a record to judge it on. -/
def judge (request : Request) : Request :=
  match request.progress, request.record? with
  | .answered rule, some record => { request with progress := .judged (rule.verdict record) }
  | _, _ => request

end Request

/-- A cache, the requests made to it in the order of their first steps, and the
sizes that were reported of it. -/
structure Shared where
  cache : Cache
  requests : List Request
  sizes : List Nat

namespace Shared

/-- The empty cache, which nobody has asked yet. -/
def start : Shared := ⟨.empty, [], []⟩

/-- What may happen next. -/
inductive Step where
  /-- somebody asks for the rule of a text, or for its verdict on a record -/
  | ask (text : String) (record? : Option Record)
  /-- the request of a number looks at the cache -/
  | look (number : Nat)
  /-- the request of a number stores the rule that it read -/
  | store (number : Nat)
  /-- the request of a number judges its rule, apart from the cache -/
  | judge (number : Nat)
  /-- somebody asks how many rules the cache holds -/
  | size
  /-- somebody empties the cache -/
  | clear

/-- The cache and the requests after one step.  A step of a request that is not
there, or is at another point, changes nothing. -/
def step (shared : Shared) : Step → Shared
  | .ask text record? =>
      { shared with requests := shared.requests ++ [⟨text, record?, .asked⟩] }
  | .look number =>
      { shared with requests := shared.requests.modify number (Request.look shared.cache) }
  | .store number =>
      { shared with
        cache := shared.requests[number]?.elim shared.cache (Request.storeIn shared.cache)
        requests := shared.requests.modify number Request.stored }
  | .judge number => { shared with requests := shared.requests.modify number Request.judge }
  | .size => { shared with sizes := shared.sizes ++ [shared.cache.size] }
  | .clear => { shared with cache := .empty }

/-- The cache and the requests after some steps. -/
def run (shared : Shared) (steps : List Step) : Shared := steps.foldl step shared

/-- A run goes on from where the steps before it led. -/
theorem run_append (shared : Shared) (steps later : List Step) :
    shared.run (steps ++ later) = (shared.run steps).run later :=
  List.foldl_append

/-- A run takes its first step, and from there the others. -/
theorem run_cons (shared : Shared) (next : Step) (steps : List Step) :
    shared.run (next :: steps) = (shared.step next).run steps := rfl

end Shared

end RuleEngine
