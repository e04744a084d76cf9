import ScuffedRedis.Client.MockLiveness
import ScuffedRedis.Foundation.Ownership
import ScuffedRedis.Foundation.Simulation

/-!
# Items behind the cache

`getItem` of `cache.ts`, over the mock backend. It looks the item up, and on a miss it waits, makes
a value and stores it. Wherever it awaits something, other requests and other users of the backend
go on. Whether a request is a hit depends on the cache at the time of its one read.

A function that reads the clock twice has two times, and nothing is said of their order. The clock
counts whole milliseconds, and items are numbered from zero or one.
-/
namespace ScuffedRedis

open Foundation

structure CacheResult where
  id : Nat
  value : String
  hit : Bool
  latencyMs : Int
  deriving DecidableEq

structure CacheStats where
  hits : Nat
  misses : Nat
  ratio : ℚ

namespace CacheStats

def initial : CacheStats where
  hits := 0
  misses := 0
  ratio := 0

/-- `round` gives the number that the engine has for the quotient. -/
def updateStats (round : ℚ → ℚ) (stats : CacheStats) (hit : Bool) : CacheStats :=
  let hits := if hit then stats.hits + 1 else stats.hits
  let misses := if hit then stats.misses else stats.misses + 1
  let total := hits + misses
  { hits, misses, ratio := if 0 < total then round (hits / total) else 0 }

end CacheStats

/-- The key of an item. -/
def itemKey (id : Nat) : String := "item:" ++ toString id

def generateValue (id now : Nat) : String := "value_" ++ toString id ++ "_" ++ toString now

/-- What a request awaits. The promise of a read comes with what the backend found. -/
inductive Awaiting where
  | redisGet (cached : Option String)
  | sleep
  | redisSet (value : String)
  | nothing (result : CacheResult)
  deriving DecidableEq

structure ItemRequest where
  id : Nat
  startTime : Nat
  awaiting : Awaiting
  deriving DecidableEq

/-- The requests in the order in which they came. -/
structure CacheServer where
  cache : MockCache
  requests : List ItemRequest
  cacheStats : CacheStats

/-- What a step does that others see. -/
inductive CacheAction where
  | called (now : Nat) (call : MockCache.Call)
  | returned (result : CacheResult)
  | reset
  | slept

/-- `other` is a call by another user of the backend, such as `/execute`. `resetStats` is what
`/workshop/reset-stats` and `/workshop/load-state` do. -/
inductive CacheEvent where
  | getItem (id : Nat)
  | resume (request : Nat)
  | other (call : MockCache.Call)
  | resetStats

/-- An event, with the first and the second reading of the clock. -/
structure TimedEvent where
  now : Nat
  later : Nat
  event : CacheEvent

namespace CacheServer

def initial : CacheServer where
  cache := InsertionMap.empty
  requests := []
  cacheStats := CacheStats.initial

section Step

variable (round : ℚ → ℚ)

/-- A request goes on from what it awaited. The empty string counts as nothing found. -/
def resume (server : CacheServer) (now later : Nat) (request : ItemRequest) :
    Option (CacheAction × Awaiting × CacheServer) :=
  let latencyMs : Int := now - request.startTime
  match request.awaiting with
  | .redisGet cached =>
    match cached.filter (· ≠ "") with
    | some value =>
      let result := { id := request.id, value, hit := true, latencyMs }
      some (.returned result, .nothing result,
        { server with cacheStats := server.cacheStats.updateStats round true })
    | none => some (.slept, .sleep, server)
  | .sleep =>
    let value := generateValue request.id now
    some (.called later (.set (itemKey request.id) value (some 60)), .redisSet value,
      { server with
        cache := server.cache.redisSet round later (itemKey request.id) value (some 60) })
  | .redisSet value =>
    let result := { id := request.id, value, hit := false, latencyMs }
    some (.returned result, .nothing result,
      { server with cacheStats := server.cacheStats.updateStats round false })
  | .nothing _ => none

/-- A request that has been answered is not resumed. -/
def step (server : CacheServer) (timed : TimedEvent) : Option (CacheAction × CacheServer) :=
  match timed.event with
  | .getItem id =>
    let (cached, cache) := server.cache.redisGet timed.later (itemKey id)
    let request := { id, startTime := timed.now, awaiting := .redisGet cached }
    some (.called timed.later (.get (itemKey id)),
      { server with cache, requests := server.requests ++ [request] })
  | .resume place => do
    let request ← server.requests[place]?
    let (action, awaiting, server) ← server.resume round timed.now timed.later request
    return (action,
      { server with requests := server.requests.set place { request with awaiting } })
  | .other call =>
    some (.called timed.now call,
      { server with cache := server.cache.after round (timed.now, call) })
  | .resetStats => some (.reset, { server with cacheStats := CacheStats.initial })

end Step

/-! ### What the backend is asked -/

end CacheServer

def CacheAction.call? : CacheAction → Option (ℚ × MockCache.Call)
  | .called now call => some (now, call)
  | .returned _ | .reset | .slept => none

/-- The history of the backend. -/
def calls (actions : List CacheAction) : List (ℚ × MockCache.Call) :=
  actions.filterMap CacheAction.call?

namespace CacheServer

variable {round : ℚ → ℚ} {server next : CacheServer} {action : CacheAction} {awaiting : Awaiting}
  {request : ItemRequest} {now later : Nat}

/-- The three ways in which a request goes on. -/
theorem resume_cases
    (resumed : server.resume round now later request = some (action, awaiting, next)) :
    (∃ cached value latencyMs, request.awaiting = .redisGet cached ∧
      cached.filter (· ≠ "") = some value ∧
      action = .returned ⟨request.id, value, true, latencyMs⟩ ∧
      awaiting = .nothing ⟨request.id, value, true, latencyMs⟩ ∧
      next = { server with cacheStats := server.cacheStats.updateStats round true }) ∨
    (∃ cached, request.awaiting = .redisGet cached ∧ cached.filter (· ≠ "") = none ∧
      action = .slept ∧ awaiting = .sleep ∧ next = server) ∨
    (request.awaiting = .sleep ∧
      action = .called later (.set (itemKey request.id) (generateValue request.id now) (some 60)) ∧
      awaiting = .redisSet (generateValue request.id now) ∧
      next = { server with
        cache := server.cache.redisSet round later (itemKey request.id)
          (generateValue request.id now) (some 60) }) ∨
    (∃ value latencyMs, request.awaiting = .redisSet value ∧
      action = .returned ⟨request.id, value, false, latencyMs⟩ ∧
      awaiting = .nothing ⟨request.id, value, false, latencyMs⟩ ∧
      next = { server with cacheStats := server.cacheStats.updateStats round false }) := by
  rw [resume] at resumed
  cases state : request.awaiting with
  | redisGet cached =>
    cases found : cached.filter (· ≠ "") with
    | some value =>
      simp only [state, found, Option.some.injEq, Prod.mk.injEq] at resumed
      obtain ⟨rfl, rfl, rfl⟩ := resumed
      exact .inl ⟨cached, value, _, rfl, found, rfl, rfl, rfl⟩
    | none =>
      simp only [state, found, Option.some.injEq, Prod.mk.injEq] at resumed
      obtain ⟨rfl, rfl, rfl⟩ := resumed
      exact .inr (.inl ⟨cached, rfl, found, rfl, rfl, rfl⟩)
  | sleep =>
    simp only [state, Option.some.injEq, Prod.mk.injEq] at resumed
    obtain ⟨rfl, rfl, rfl⟩ := resumed
    exact .inr (.inr (.inl ⟨rfl, rfl, rfl, rfl⟩))
  | redisSet value =>
    simp only [state, Option.some.injEq, Prod.mk.injEq] at resumed
    obtain ⟨rfl, rfl, rfl⟩ := resumed
    exact .inr (.inr (.inr ⟨value, _, rfl, rfl, rfl, rfl⟩))
  | nothing result =>
    simp only [state, reduceCtorEq] at resumed

theorem resume_requests
    (resumed : server.resume round now later request = some (action, awaiting, next)) :
    next.requests = server.requests := by
  obtain ⟨_, _, _, -, -, -, -, rfl⟩ | ⟨_, -, -, -, -, rfl⟩ | ⟨-, -, -, rfl⟩ |
    ⟨_, _, -, -, -, rfl⟩ := resume_cases resumed <;> rfl

/-- The four kinds of step. -/
theorem step_cases {timed : TimedEvent} (stepped : server.step round timed = some (action, next)) :
    (∃ id, timed.event = .getItem id ∧ action = .called timed.later (.get (itemKey id)) ∧
      next = { server with
        cache := (server.cache.redisGet timed.later (itemKey id)).2
        requests := server.requests ++
          [⟨id, timed.now, .redisGet (server.cache.redisGet timed.later (itemKey id)).1⟩] }) ∨
    (∃ place request awaiting after, timed.event = .resume place ∧
      server.requests[place]? = some request ∧
      server.resume round timed.now timed.later request = some (action, awaiting, after) ∧
      next = { after with requests := after.requests.set place { request with awaiting } }) ∨
    (∃ call, timed.event = .other call ∧ action = .called timed.now call ∧
      next = { server with cache := server.cache.after round (timed.now, call) }) ∨
    (timed.event = .resetStats ∧ action = .reset ∧
      next = { server with cacheStats := CacheStats.initial }) := by
  rw [step] at stepped
  cases event : timed.event with
  | getItem id =>
    simp only [event, Option.some.injEq, Prod.mk.injEq] at stepped
    obtain ⟨rfl, rfl⟩ := stepped
    exact .inl ⟨id, rfl, rfl, rfl⟩
  | resume place =>
    simp only [event, Option.bind_eq_bind, Option.bind_eq_some_iff, Option.pure_def,
      Option.some.injEq, Prod.mk.injEq, Prod.exists] at stepped
    obtain ⟨request, found, _, awaiting, after, resumed, rfl, rfl⟩ := stepped
    exact .inr (.inl ⟨place, request, awaiting, after, rfl, found, resumed, rfl⟩)
  | other call =>
    simp only [event, Option.some.injEq, Prod.mk.injEq] at stepped
    obtain ⟨rfl, rfl⟩ := stepped
    exact .inr (.inr (.inl ⟨call, rfl, rfl, rfl⟩))
  | resetStats =>
    simp only [event, Option.some.injEq, Prod.mk.injEq] at stepped
    obtain ⟨rfl, rfl⟩ := stepped
    exact .inr (.inr (.inr ⟨rfl, rfl, rfl⟩))

/-- The backend is changed by the call of a step, and by nothing else. -/
theorem step_cache {timed : TimedEvent} (stepped : server.step round timed = some (action, next)) :
    next.cache = (calls [action]).foldl (MockCache.after round) server.cache := by
  obtain ⟨id, -, rfl, rfl⟩ | ⟨place, request, awaiting, after, -, -, resumed, rfl⟩ |
    ⟨call, -, rfl, rfl⟩ | ⟨-, rfl, rfl⟩ := step_cases stepped
  · rfl
  · rcases resume_cases resumed with ⟨_, _, _, -, -, rfl, -, rfl⟩ | ⟨_, -, -, rfl, -, rfl⟩ |
      ⟨-, rfl, -, rfl⟩ | ⟨_, _, -, rfl, -, rfl⟩ <;> rfl
  · rfl
  · rfl

/-- A request of the next state is the one that came, one that went on, or as it was. -/
theorem step_requests {timed : TimedEvent} (stepped : server.step round timed = some (action, next))
    {place : Nat} {request : ItemRequest} (found : next.requests[place]? = some request) :
    server.requests[place]? = some request ∨
    (∃ id, timed.event = .getItem id ∧ place = server.requests.length ∧
      request = ⟨id, timed.now, .redisGet (server.cache.redisGet timed.later (itemKey id)).1⟩) ∨
    (∃ before awaiting after, server.requests[place]? = some before ∧
      server.resume round timed.now timed.later before = some (action, awaiting, after) ∧
      request = { before with awaiting }) := by
  obtain ⟨id, event, -, rfl⟩ | ⟨other, before, awaiting, after, -, present, resumed, rfl⟩ |
    ⟨call, -, -, rfl⟩ | ⟨-, -, rfl⟩ := step_cases stepped
  · rw [List.getElem?_append] at found
    split at found
    next => exact .inl found
    next outside =>
      rw [List.getElem?_singleton] at found
      split at found
      next last =>
        cases found
        exact .inr (.inl ⟨id, event, by omega, rfl⟩)
      next => cases found
  · rw [List.getElem?_set, resume_requests resumed] at found
    by_cases same : other = place
    · subst same
      rw [if_pos rfl] at found
      split at found
      next =>
        cases found
        exact .inr (.inr ⟨before, awaiting, after, present, resumed, rfl⟩)
      next => cases found
    · rw [if_neg same] at found
      exact .inl found
  · exact .inl found
  · exact .inl found

/-! ### Hits -/

/-- The last write to the key is live at the time. -/
def Live (round : ℚ → ℚ) (history : List (ℚ × MockCache.Call)) (key value : String) (now : ℚ) :
    Prop :=
  ∃ before time ttl since, history = before ++ (time, .set key value ttl) :: since ∧
    now < MockCache.expiresAt round time ttl ∧
    ∀ call ∈ since, MockCache.Spares key (MockCache.expiresAt round time ttl) call

theorem run_calls_concat (actions : List CacheAction) :
    MockCache.run round (calls (actions ++ [action])) =
      (calls [action]).foldl (MockCache.after round) (MockCache.run round (calls actions)) := by
  rw [calls, List.filterMap_append, MockCache.run, List.foldl_append]
  rfl

theorem redisGet_run_iff {history : List (ℚ × MockCache.Call)} {key value : String} {now : ℚ} :
    ((MockCache.run round history).redisGet now key).1 = some value ↔
      Live round history key value now := by
  have stored : ((MockCache.run round history).redisGet now key).1 = some value ↔
      ∃ entry, (MockCache.run round history).get? key = some entry ∧ now < entry.expires ∧
        entry.value = value := by
    rw [MockCache.redisGet]
    cases (MockCache.run round history).get? key with
    | none => simp
    | some entry =>
      by_cases live : now < entry.expires <;> simp [live]
  rw [stored]
  constructor
  · rintro ⟨entry, found, live, rfl⟩
    obtain ⟨before, time, ttl, since, split, expires, spared⟩ := MockCache.get?_run.mp found
    rw [expires] at live spared
    exact ⟨before, time, ttl, since, split, live, spared⟩
  · rintro ⟨before, time, ttl, since, split, live, spared⟩
    exact ⟨⟨value, MockCache.expiresAt round time ttl⟩,
      MockCache.get?_run.mpr ⟨before, time, ttl, since, split, rfl, spared⟩, live, rfl⟩

/-- What a request awaits when this is what its read found. -/
def Follows (id : Nat) (cached : Option String) : Awaiting → Prop
  | .redisGet found => found = cached
  | .sleep | .redisSet _ => cached.filter (· ≠ "") = none
  | .nothing result =>
    result.id = id ∧ cached.filter (· ≠ "") = if result.hit then some result.value else none

theorem Follows.resume {cached : Option String}
    (follows : Follows request.id cached request.awaiting)
    (resumed : server.resume round now later request = some (action, awaiting, next)) :
    Follows request.id cached awaiting := by
  obtain ⟨found, value, _, before, hit, -, rfl, -⟩ | ⟨found, before, miss, -, rfl, -⟩ |
    ⟨before, -, rfl, -⟩ | ⟨value, _, before, -, rfl, -⟩ := resume_cases resumed
  · rw [before] at follows
    obtain rfl : found = cached := follows
    exact ⟨rfl, hit⟩
  · rw [before] at follows
    obtain rfl : found = cached := follows
    exact miss
  · rw [before] at follows
    exact follows
  · rw [before] at follows
    exact ⟨rfl, follows⟩

/-- The request came behind this many others, and read from a backend with this history. -/
def Began (round : ℚ → ℚ) (events : List TimedEvent) (place : Nat) (request : ItemRequest)
    (history : List (ℚ × MockCache.Call)) (readAt : Nat) : Prop :=
  ∃ before after actions server,
    events = before ++ ⟨request.startTime, readAt, .getItem request.id⟩ :: after ∧
    runAnswers (step round) initial before = some (actions, server) ∧
    server.requests.length = place ∧ calls actions = history

theorem Began.mono {events : List TimedEvent} {place : Nat}
    {history : List (ℚ × MockCache.Call)} {readAt : Nat}
    (began : Began round events place request history readAt) (timed : TimedEvent) :
    Began round (events ++ [timed]) place request history readAt := by
  obtain ⟨before, after, actions, server, rfl, rest⟩ := began
  exact ⟨before, after ++ [timed], actions, server, by simp, rest⟩

/-- Every request is explained by the history that it read from. -/
structure Explained (round : ℚ → ℚ) (events : List TimedEvent) (actions : List CacheAction)
    (server : CacheServer) : Prop where
  replayed : server.cache = MockCache.run round (calls actions)
  began : ∀ place request, server.requests[place]? = some request →
    ∃ history readAt, Began round events place request history readAt ∧
      history <+: calls actions ∧ Follows request.id
        ((MockCache.run round history).redisGet readAt (itemKey request.id)).1 request.awaiting

theorem explained_run {events : List TimedEvent} {actions : List CacheAction}
    (ran : runAnswers (step round) initial events = some (actions, server)) :
    Explained round events actions server := by
  refine runAnswers_invariant (Explained round) ⟨rfl, by simp [initial]⟩ ?_ ran
  intro events actions server timed action next before explained stepped
  constructor
  · rw [step_cache stepped, explained.replayed, run_calls_concat]
  · intro place request found
    have grown : calls actions <+: calls (actions ++ [action]) :=
      (List.prefix_append actions [action]).filterMap _
    obtain kept | ⟨id, event, rfl, rfl⟩ | ⟨request, awaiting, after, present, resumed, rfl⟩ :=
      step_requests stepped found
    · obtain ⟨history, readAt, began, part, follows⟩ := explained.began place request kept
      exact ⟨history, readAt, began.mono timed, part.trans grown, follows⟩
    · obtain ⟨now, later, _⟩ := timed
      obtain rfl := event
      refine ⟨calls actions, later, ⟨events, [], actions, server, rfl, before, rfl, rfl⟩, grown, ?_⟩
      rw [← explained.replayed]
      rfl
    · obtain ⟨history, readAt, began, part, follows⟩ := explained.began place request present
      exact ⟨history, readAt, began.mono timed, part.trans grown, follows.resume resumed⟩

/-- **Hits.** However requests, other users and resets are interleaved, and whatever the clock
does: a request is a hit exactly when the last write to its key, among the calls that the backend
had before the request's read, was live at that time and not of the empty string, and then it
returns what was written. -/
theorem getItem_hit_iff {events : List TimedEvent} {actions : List CacheAction}
    (ran : runAnswers (step round) initial events = some (actions, server)) {place : Nat}
    (found : server.requests[place]? = some request) {result : CacheResult}
    (answered : request.awaiting = .nothing result) :
    ∃ history readAt, Began round events place request history readAt ∧ result.id = request.id ∧
      ∀ value, (result.hit = true ∧ result.value = value ↔
        value ≠ "" ∧ Live round history (itemKey request.id) value readAt) := by
  obtain ⟨history, readAt, began, -, follows⟩ := (explained_run ran).began place request found
  rw [answered] at follows
  obtain ⟨same, read⟩ := follows
  refine ⟨history, readAt, began, same, fun value => ?_⟩
  rw [← redisGet_run_iff]
  constructor
  · rintro ⟨hit, rfl⟩
    rw [if_pos hit, Option.filter_eq_some_iff] at read
    exact ⟨of_decide_eq_true read.2, read.1⟩
  · rintro ⟨nonempty, cached⟩
    rw [cached, Option.filter_some, if_pos (decide_eq_true nonempty)] at read
    by_cases hit : result.hit = true
    · rw [if_pos hit, Option.some.injEq] at read
      exact ⟨hit, read.symm⟩
    · rw [if_neg hit] at read
      cases read

/-- An item that is asked for twice. The second time it is in the cache. -/
def twice : List TimedEvent :=
  [⟨5, 5, .getItem 1⟩, ⟨5, 5, .resume 0⟩, ⟨250, 251, .resume 0⟩, ⟨252, 252, .resume 0⟩,
    ⟨300, 300, .getItem 1⟩, ⟨301, 301, .resume 1⟩]

def secondAnswer : CacheResult where
  id := 1
  value := "value_1_250"
  hit := true
  latencyMs := 1

theorem twice_run : ∃ actions server, runAnswers (step id) initial twice = some (actions, server) ∧
    server.requests[1]? = some ⟨1, 300, .nothing secondAnswer⟩ := by
  have second : ((runAnswers (step id) initial twice).map fun ran => ran.2.requests[1]?) =
      some (some ⟨1, 300, .nothing secondAnswer⟩) := by decide +kernel
  obtain ⟨⟨actions, server⟩, ran, found⟩ := Option.map_eq_some_iff.mp second
  exact ⟨actions, server, ran, found⟩

theorem getItem_hit_iff_twice :
    ∃ history readAt, Began id twice 1 ⟨1, 300, .nothing secondAnswer⟩ history readAt ∧
      secondAnswer.id = 1 ∧ ∀ value, (secondAnswer.hit = true ∧ secondAnswer.value = value ↔
        value ≠ "" ∧ Live id history (itemKey 1) value readAt) := by
  obtain ⟨actions, server, ran, found⟩ := twice_run
  exact getItem_hit_iff ran found rfl

/-! ### Values -/

theorem itemKey_injective : Function.Injective itemKey := by
  intro first second same
  exact Nat.repr_inj.mp ((String.append_right_inj _).mp same)

/-- The request was a miss, and this is the value that it made and stored. -/
def Wrote (value : String) : Awaiting → Prop
  | .redisSet written => written = value
  | .nothing result => result.hit = false ∧ result.value = value
  | .redisGet _ | .sleep => False

/-- What a request stored, it stored for good, and what it stores is a value of its item. -/
theorem resume_wrote
    (resumed : server.resume round now later request = some (action, awaiting, next))
    {value : String} :
    (Wrote value request.awaiting → Wrote value awaiting) ∧
    (Wrote value awaiting →
      Wrote value request.awaiting ∨ value = generateValue request.id now) := by
  obtain ⟨found, _, _, before, -, -, rfl, -⟩ | ⟨found, before, -, -, rfl, -⟩ |
    ⟨before, -, rfl, -⟩ | ⟨written, _, before, -, rfl, -⟩ := resume_cases resumed
  · rw [before]
    exact ⟨False.elim, fun wrote => by cases wrote.1⟩
  · rw [before]
    exact ⟨False.elim, False.elim⟩
  · rw [before]
    exact ⟨False.elim, fun wrote => .inr wrote.symm⟩
  · rw [before]
    exact ⟨fun wrote => ⟨rfl, wrote⟩, fun wrote => .inl wrote.2⟩

/-- A request stays in its place. -/
theorem step_keeps {timed : TimedEvent} (stepped : server.step round timed = some (action, next))
    {place : Nat} (found : server.requests[place]? = some request) :
    ∃ awaiting, next.requests[place]? = some { request with awaiting } ∧
      ∀ value, Wrote value request.awaiting → Wrote value awaiting := by
  obtain ⟨item, -, -, rfl⟩ | ⟨other, before, awaiting, after, -, present, resumed, rfl⟩ |
    ⟨call, -, -, rfl⟩ | ⟨-, -, rfl⟩ := step_cases stepped
  · refine ⟨request.awaiting, ?_, fun _ => id⟩
    rw [List.getElem?_append_left (List.getElem?_eq_some_iff.mp found).1, found]
  · rw [List.getElem?_set, resume_requests resumed]
    by_cases same : other = place
    · subst same
      rw [found] at present
      cases present
      refine ⟨awaiting, ?_, fun value => (resume_wrote resumed).1⟩
      rw [if_pos rfl, if_pos (List.getElem?_eq_some_iff.mp found).1]
    · rw [if_neg same, found]
      exact ⟨request.awaiting, rfl, fun _ => id⟩
  · exact ⟨request.awaiting, found, fun _ => id⟩
  · exact ⟨request.awaiting, found, fun _ => id⟩

/-- Whoever else writes does not write to the keys of items. -/
def Apart (event : CacheEvent) : Prop :=
  ∀ id value ttl, event ≠ .other (.set (itemKey id) value ttl)

/-- A write to the key of an item is by a request for the item, to whose name it is afterwards. -/
theorem step_set {timed : TimedEvent} (stepped : server.step round timed = some (action, next))
    (apart : Apart timed.event) {time : ℚ} {id : Nat} {value : String} {ttl : Option ℚ}
    (called : (time, .set (itemKey id) value ttl) ∈ calls [action]) :
    ttl = some 60 ∧ ∃ (place : Nat) (writer : ItemRequest),
      next.requests[place]? = some writer ∧ writer.id = id ∧ Wrote value writer.awaiting := by
  obtain ⟨item, -, rfl, -⟩ | ⟨place, request, awaiting, after, -, present, resumed, rfl⟩ |
    ⟨call, event, rfl, -⟩ | ⟨-, rfl, -⟩ := step_cases stepped
  · cases List.mem_singleton.mp called
  · obtain ⟨_, _, _, -, -, rfl, -, -⟩ | ⟨_, -, -, rfl, -, -⟩ | ⟨-, rfl, rfl, -⟩ |
      ⟨_, _, -, rfl, -, -⟩ := resume_cases resumed
    · cases called
    · cases called
    · have same := List.mem_singleton.mp called
      simp only [Prod.mk.injEq, MockCache.Call.set.injEq] at same
      obtain ⟨-, key, rfl, rfl⟩ := same
      obtain rfl := itemKey_injective key
      refine ⟨rfl, place,
        { request with awaiting := .redisSet (generateValue request.id timed.now) }, ?_, rfl, rfl⟩
      simp only [resume_requests resumed]
      exact List.getElem?_set_self (List.getElem?_eq_some_iff.mp present).1
    · cases called
  · have same := List.mem_singleton.mp called
    simp only [Prod.mk.injEq] at same
    obtain ⟨-, rfl⟩ := same
    exact absurd event (apart id value ttl)
  · cases called

/-- The writes to the keys of items are those of requests, with values of the items. -/
structure OwnValues (actions : List CacheAction) (server : CacheServer) : Prop where
  sets : ∀ time id value ttl, (time, .set (itemKey id) value ttl) ∈ calls actions →
    ttl = some 60 ∧ ∃ (place : Nat) (writer : ItemRequest),
      server.requests[place]? = some writer ∧ writer.id = id ∧ Wrote value writer.awaiting
  made : ∀ (place : Nat) request value, server.requests[place]? = some request →
    Wrote value request.awaiting → ∃ now, value = generateValue request.id now

theorem ownValues_run {events : List TimedEvent} {actions : List CacheAction}
    (apart : ∀ timed ∈ events, Apart timed.event)
    (ran : runAnswers (step round) initial events = some (actions, server)) :
    OwnValues actions server := by
  refine runAnswers_invariant (fun events actions server =>
    (∀ timed ∈ events, Apart timed.event) → OwnValues actions server)
    (fun _ => ⟨by simp [calls], by simp [initial]⟩) ?_ ran apart
  intro events actions server timed action next before own stepped apart
  rw [List.forall_mem_append, List.forall_mem_singleton] at apart
  obtain ⟨earlier, apart⟩ := apart
  have own := own earlier
  constructor
  · intro time id value ttl called
    rw [calls, List.filterMap_append, List.mem_append] at called
    rcases called with earlier | called
    · obtain ⟨sixty, place, writer, found, same, wrote⟩ := own.sets time id value ttl earlier
      obtain ⟨awaiting, kept, keeps⟩ := step_keeps stepped found
      exact ⟨sixty, place, _, kept, same, keeps value wrote⟩
    · exact step_set stepped apart called
  · intro place request value found wrote
    obtain kept | ⟨id, -, -, rfl⟩ | ⟨request, awaiting, after, present, resumed, rfl⟩ :=
      step_requests stepped found
    · exact own.made place request value kept wrote
    · exact wrote.elim
    · rcases (resume_wrote resumed).2 wrote with wrote | made
      · exact own.made place request value present wrote
      · exact ⟨timed.now, made⟩

/-- **Values.** If other users of the backend leave the keys of items alone, every request is
answered with a value of its own item. A hit returns what a request for the item wrote that was a
miss, at a time that is not yet sixty seconds past when the hit is read. -/
theorem getItem_value {events : List TimedEvent} {actions : List CacheAction}
    (apart : ∀ timed ∈ events, Apart timed.event)
    (ran : runAnswers (step round) initial events = some (actions, server)) {place : Nat}
    (found : server.requests[place]? = some request) {result : CacheResult}
    (answered : request.awaiting = .nothing result) :
    result.id = request.id ∧ (∃ made, result.value = generateValue request.id made) ∧
      (result.hit = true → ∃ (other : Nat) (writer : ItemRequest) (history : List _) (readAt : Nat)
        (stored : ℚ), server.requests[other]? = some writer ∧ writer.id = request.id ∧
          Wrote result.value writer.awaiting ∧ Began round events place request history readAt ∧
          (stored, .set (itemKey request.id) result.value (some 60)) ∈ history ∧
          readAt < MockCache.expiresAt round stored (some 60)) := by
  have own := ownValues_run apart ran
  obtain ⟨history, readAt, began, part, follows⟩ := (explained_run ran).began place request found
  rw [answered] at follows
  obtain ⟨same, read⟩ := follows
  by_cases hit : result.hit = true
  · rw [if_pos hit, Option.filter_eq_some_iff, redisGet_run_iff] at read
    obtain ⟨⟨before, time, ttl, since, split, live, -⟩, -⟩ := read
    have called : (time, .set (itemKey request.id) result.value ttl) ∈ history := by
      rw [split]
      exact List.mem_append_right _ List.mem_cons_self
    obtain ⟨rfl, other, writer, written, item, wrote⟩ :=
      own.sets time request.id result.value ttl (part.subset called)
    obtain ⟨made, value⟩ := own.made other writer result.value written wrote
    rw [item] at value
    exact ⟨same, ⟨made, value⟩, fun _ =>
      ⟨other, writer, history, readAt, time, written, item, wrote, began, called, live⟩⟩
  · have wrote : Wrote result.value request.awaiting := by
      rw [answered]
      exact ⟨Bool.eq_false_of_not_eq_true hit, rfl⟩
    exact ⟨same, own.made place request result.value found wrote, fun isHit => absurd isHit hit⟩

theorem getItem_value_twice :
    ∃ (server : CacheServer), secondAnswer.id = 1 ∧
      (∃ made, secondAnswer.value = generateValue 1 made) ∧
      (secondAnswer.hit = true → ∃ (other : Nat) (writer : ItemRequest) (history : List _)
        (readAt : Nat) (stored : ℚ), server.requests[other]? = some writer ∧ writer.id = 1 ∧
          Wrote secondAnswer.value writer.awaiting ∧
          Began id twice 1 ⟨1, 300, .nothing secondAnswer⟩ history readAt ∧
          (stored, .set (itemKey 1) secondAnswer.value (some 60)) ∈ history ∧
          readAt < MockCache.expiresAt id stored (some 60)) := by
  obtain ⟨actions, server, ran, found⟩ := twice_run
  exact ⟨server, getItem_value (by simp [twice, Apart]) ran found rfl⟩

/-! ### Statistics -/

/-- What was done since the statistics were last reset. -/
def sinceReset (actions : List CacheAction) : List CacheAction :=
  actions.foldl (fun kept action =>
    match action with
    | .reset => []
    | other => kept ++ [other]) []

def returned? : CacheAction → Option CacheResult
  | .returned result => some result
  | .called _ _ | .reset | .slept => none

def answered? (request : ItemRequest) : Option CacheResult :=
  match request.awaiting with
  | .nothing result => some result
  | .redisGet _ | .sleep | .redisSet _ => none

/-- The statistics of these results. -/
def counted (round : ℚ → ℚ) (results : List CacheResult) : CacheStats :=
  let hits := results.countP (·.hit)
  { hits
    misses := results.length - hits
    ratio := if 0 < results.length then round (hits / results.length) else 0 }

theorem counted_concat (results : List CacheResult) (result : CacheResult) :
    counted round (results ++ [result]) = (counted round results).updateStats round result.hit := by
  have bound : results.countP (·.hit) ≤ results.length := List.countP_le_length
  rw [counted, CacheStats.updateStats, counted, List.countP_append, List.countP_singleton,
    List.length_append, List.length_singleton]
  cases result.hit with
  | true =>
    have total : results.countP (·.hit) + 1 + (results.length - results.countP (·.hit)) =
        results.length + 1 := by omega
    simp only [if_true, total, Nat.add_sub_add_right]
  | false =>
    have total : results.countP (·.hit) + (results.length - results.countP (·.hit) + 1) =
        results.length + 1 := by omega
    have misses : results.length + 1 - results.countP (·.hit) =
        results.length - results.countP (·.hit) + 1 := by omega
    simp only [Bool.false_eq_true, if_false, Nat.add_zero, total, misses]

theorem sinceReset_concat (actions : List CacheAction) :
    sinceReset (actions ++ [action]) =
      match action with
      | .reset => []
      | other => sinceReset actions ++ [other] := by
  rw [sinceReset, List.foldl_concat]
  rfl

theorem step_cacheStats {timed : TimedEvent}
    (stepped : server.step round timed = some (action, next)) :
    next.cacheStats =
      match action with
      | .reset => CacheStats.initial
      | .returned result => server.cacheStats.updateStats round result.hit
      | .called _ _ | .slept => server.cacheStats := by
  obtain ⟨id, -, rfl, rfl⟩ | ⟨place, request, awaiting, after, -, -, resumed, rfl⟩ |
    ⟨call, -, rfl, rfl⟩ | ⟨-, rfl, rfl⟩ := step_cases stepped
  · rfl
  · rcases resume_cases resumed with ⟨_, _, _, -, -, rfl, -, rfl⟩ | ⟨_, -, -, rfl, -, rfl⟩ |
      ⟨-, rfl, -, rfl⟩ | ⟨_, _, -, rfl, -, rfl⟩ <;> rfl
  · rfl
  · rfl

/-- A request that goes on had no answer, and has what is returned now. -/
theorem resume_answered
    (resumed : server.resume round now later request = some (action, awaiting, next)) :
    answered? request = none ∧ answered? { request with awaiting } = returned? action := by
  obtain ⟨_, _, _, before, -, rfl, rfl, -⟩ | ⟨_, before, -, rfl, rfl, -⟩ | ⟨before, rfl, rfl, -⟩ |
    ⟨_, _, before, rfl, rfl, -⟩ := resume_cases resumed <;>
  · rw [answered?, before]
    exact ⟨rfl, rfl⟩

/-- What a step returns is the answer to a request that had none. -/
theorem step_answered {timed : TimedEvent}
    (stepped : server.step round timed = some (action, next)) :
    (next.requests.filterMap answered?).Perm
      (server.requests.filterMap answered? ++ (returned? action).toList) := by
  obtain ⟨id, -, rfl, rfl⟩ | ⟨place, request, awaiting, after, -, present, resumed, rfl⟩ |
    ⟨call, -, rfl, rfl⟩ | ⟨-, rfl, rfl⟩ := step_cases stepped
  · rw [List.filterMap_append]
    exact .refl _
  · obtain ⟨unanswered, answer⟩ := resume_answered resumed
    have inside := (List.getElem?_eq_some_iff.mp present).1
    have written := perm_reduceOption_set
      (show place < (server.requests.map answered?).length by rwa [List.length_map])
      (returned? action)
    have empty : (server.requests.map answered?).getD place Option.none = Option.none := by
      rw [List.getD_eq_getElem?_getD, List.getElem?_map, present, Option.map_some, unanswered]
      rfl
    rw [empty, Option.toList_none, List.append_nil, ← answer, ← List.map_set] at written
    simp only [resume_requests resumed]
    rw [← answer]
    simpa only [List.reduceOption, List.filterMap_map, Function.id_comp] using written
  · exact (List.append_nil _).symm ▸ .refl _
  · exact (List.append_nil _).symm ▸ .refl _

/-- **Statistics.** What was returned are the answers of the requests, each of them once, and the
statistics count those since the last reset, whatever requests were under way when it came. -/
theorem cacheStats_run {events : List TimedEvent} {actions : List CacheAction}
    (ran : runAnswers (step round) initial events = some (actions, server)) :
    server.cacheStats = counted round ((sinceReset actions).filterMap returned?) ∧
      (server.requests.filterMap answered?).Perm (actions.filterMap returned?) := by
  refine runAnswers_invariant (fun _ actions server =>
    server.cacheStats = counted round ((sinceReset actions).filterMap returned?) ∧
      (server.requests.filterMap answered?).Perm (actions.filterMap returned?))
    ⟨rfl, .refl _⟩ ?_ ran
  rintro events actions server timed action next - ⟨stats, once⟩ stepped
  constructor
  · rw [step_cacheStats stepped, sinceReset_concat]
    cases action with
    | reset => rfl
    | returned result =>
      rw [stats, List.filterMap_append]
      exact (counted_concat _ result).symm
    | called | slept =>
      rw [List.filterMap_append, stats]
      exact congrArg (counted round) (List.append_nil _).symm
  · rw [List.filterMap_append]
    refine (step_answered stepped).trans ((once.append_right _).trans ?_)
    cases action <;> exact .refl _

/-- The one hit and the one miss. -/
theorem cacheStats_run_twice :
    ∃ actions server, runAnswers (step id) initial twice = some (actions, server) ∧
      server.cacheStats = counted id ((sinceReset actions).filterMap returned?) ∧
      (server.requests.filterMap answered?).Perm (actions.filterMap returned?) := by
  obtain ⟨actions, server, ran, -⟩ := twice_run
  exact ⟨actions, server, ran, cacheStats_run ran⟩

end CacheServer
end ScuffedRedis
