import ScuffedRedis.Client.CacheAside
import ScuffedRedis.Client.NodeTtl

/-!
# Items behind the C++ server

`getItem` of `cache.ts` with the C++ server as its backend, one request after another. The requests
ask for a time to live of sixty seconds, which the server does not know, so only a deletion or
another write ever ends a hit.
-/
namespace ScuffedRedis
namespace ScuffedRedisClient

open Foundation Protocol

/-! ### Requests -/

/-- A request for an item, with the clock at its start, when its value is made, and at its end, or a
method that is called for someone else. -/
inductive Task where
  | getItem (id startTime made now : Nat)
  | method (method : Method)

inductive Outcome where
  | item (result : CacheResult)
  | returned (returned : Returned)

section Performs

variable {σ α : Type*}

/-- A task on a backend. What a request for an item calls, it awaits. -/
inductive Performs (step : σ → Method → Returned → σ → Prop) (state : σ) : Task → Outcome → σ → Prop
  | hit {id startTime made now value next} :
      step state (.call (.get (itemKey id))) (.value (some value)) next → value ≠ "" →
      Performs step state (.getItem id startTime made now)
        (.item { id, value, hit := true, latencyMs := now - startTime }) next
  | miss {id startTime made now cached middle next} :
      step state (.call (.get (itemKey id))) (.value cached) middle →
      cached.filter (· ≠ "") = none →
      step middle (.call (.set (itemKey id) (generateValue id made) (some "60"))) .nothing next →
      Performs step state (.getItem id startTime made now)
        (.item { id, value := generateValue id made, hit := false, latencyMs := now - startTime })
        next
  | method {method returned next} : step state method returned next →
      Performs step state (.method method) (.returned returned) next

/-- Tasks on backends that are related are related. -/
theorem Performs.simulated {concrete : σ → Method → Returned → σ → Prop}
    {spec : α → Method → Returned → α → Prop} {related : σ → α → Prop}
    (simulates : ∀ state a method returned next, related state a →
      concrete state method returned next → ∃ b, spec a method returned b ∧ related next b)
    {state next : σ} {a : α} {task : Task} {outcome : Outcome} (start : related state a)
    (performs : Performs concrete state task outcome next) :
    ∃ b, Performs spec a task outcome b ∧ related next b := by
  cases performs with
  | hit got present =>
    obtain ⟨b, answered, kept⟩ := simulates _ _ _ _ _ start got
    exact ⟨b, .hit answered present, kept⟩
  | miss got missing set =>
    obtain ⟨b, answered, kept⟩ := simulates _ _ _ _ _ start got
    obtain ⟨c, stored, kept'⟩ := simulates _ _ _ _ _ kept set
    exact ⟨c, .miss answered missing stored, kept'⟩
  | method step =>
    obtain ⟨b, answered, kept⟩ := simulates _ _ _ _ _ start step
    exact ⟨b, .method answered, kept⟩

end Performs

/-! ### What the tasks leave -/

/-- The task may write the key of the item. -/
def Touches (id : Nat) : Task → Prop
  | .getItem other _ _ _ => other = id
  | .method (.call (.set key _ _)) | .method (.call (.del key)) => key = itemKey id
  | .method .flushdb => True
  | .method _ => False

/-- The task was a request for the item with this value, or a SET of its key to it. -/
def Leaves (id : Nat) (value : String) : Task → Outcome → Prop
  | .getItem other _ _ _, .item result => other = id ∧ result.value = value
  | .method (.call (.set key written _)), _ => key = itemKey id ∧ written = value
  | _, _ => False

theorem generateValue_ne_empty (id made : Nat) : generateValue id made ≠ "" := by
  simp [generateValue]

section Specification

variable {m m' : String → Option String} {key value : String}

/-- What the key of an item has after a task was left by the task, or was there before. -/
theorem performs_leaves {task : Task} {outcome : Outcome} {id : Nat}
    (performs : Performs NodeSpec m task outcome m') :
    m' (itemKey id) = some value ↔ Leaves id value task outcome ∨
      m (itemKey id) = some value ∧ ¬ Touches id task := by
  cases performs with
  | @hit other _ _ _ found _ got present =>
    -- A hit leaves the map as it is, but what it returns is what it found.
    obtain ⟨bound, rfl⟩ := nodeSpec_get got
    by_cases same : other = id
    · simp [Leaves, Touches, same, ← same ▸ bound]
    · simp [Leaves, Touches, same]
  | @miss other _ _ _ cached _ _ got missing set =>
    obtain ⟨-, rfl⟩ := nodeSpec_get got
    obtain rfl := nodeSpec_set set
    by_cases same : other = id
    · simp [Leaves, Touches, same]
    · -- Different items have different keys.
      have apart : itemKey id ≠ itemKey other := CacheServer.itemKey_injective.ne (Ne.symm same)
      simp [Leaves, Touches, same, Function.update_of_ne apart]
  | method step =>
    cases step with
    | get | exists' | keys | dbsize | ping | info => simp [Leaves, Touches]
    | set key written =>
      by_cases same : key = itemKey id
      · simp [Leaves, Touches, same]
      · simp [Leaves, Touches, same, Function.update_of_ne (Ne.symm same)]
    | del key =>
      by_cases same : key = itemKey id
      · simp [Leaves, Touches, same]
      · simp [Leaves, Touches, same, Function.update_of_ne (Ne.symm same)]
    | flushdb => simp [Leaves, Touches]

end Specification

/-! ### Hits -/

variable {m : String → Option String} {link next : NodeLink}

theorem Attached.performs {task : Task} {outcome : Outcome} (attached : Attached link m)
    (performs : Performs NodeStep link task outcome next) :
    ∃ m', Performs NodeSpec m task outcome m' ∧ Attached next m' :=
  performs.simulated (fun _ _ _ _ _ attached step => attached.step step) attached

/-- A request is a hit with what the map has, unless that is nothing or the empty string. -/
theorem performs_getItem {id startTime made now : Nat} {result : CacheResult}
    {m' : String → Option String}
    (performs : Performs NodeSpec m (.getItem id startTime made now) (.item result) m') :
    (result.hit = true ↔ m (itemKey id) = some result.value) ∧
      (result.hit = false → result.value = generateValue id made) := by
  cases performs with
  | hit got present =>
    obtain ⟨bound, -⟩ := nodeSpec_get got
    exact ⟨⟨fun _ => bound.symm, fun _ => rfl⟩, fun missed => by cases missed⟩
  | miss got missing _ =>
    obtain ⟨rfl, -⟩ := nodeSpec_get got
    refine ⟨⟨fun hit => (by cases hit), fun bound => ?_⟩, fun _ => rfl⟩
    -- What a request stores is not the empty string.
    rw [bound, Option.filter_some, if_pos (by simp [generateValue_ne_empty])] at missing
    cases missing

/-- **Items do not expire.** A request that follows any run of requests for items and other methods
is a hit exactly when its value was left by an earlier one, a request for the same item or a SET of
its key, and none since has touched the key, however long ago that was. A miss makes its value. -/
theorem getItem_hit_iff_left (sends : List SendResult) (tasks : List Task) (outcomes : List Outcome)
    (link next : NodeLink) (id startTime made now : Nat) (result : CacheResult)
    (noError : .error ∉ sends)
    (run : SpecRun (Performs NodeStep) (.fresh sends) tasks outcomes link)
    (performs : Performs NodeStep link (.getItem id startTime made now) (.item result) next) :
    (result.hit = true ↔ ∃ before last after, tasks.zip outcomes = before ++ last :: after ∧
        Leaves id result.value last.1 last.2 ∧ ∀ other ∈ after, ¬ Touches id other.1) ∧
      (result.hit = false → result.value = generateValue id made) := by
  have simulates : ∀ link m task outcome next, Attached link m →
      Performs NodeStep link task outcome next →
        ∃ m', Performs NodeSpec m task outcome m' ∧ Attached next m' :=
    fun _ _ _ _ _ attached performs => attached.performs performs
  obtain ⟨m, performed, attached⟩ := run.simulated Attached simulates (attached_fresh noError)
  obtain ⟨m', performs', -⟩ := attached.performs performs
  obtain ⟨hit, missed⟩ := performs_getItem performs'
  -- What the map has for the key was left by the last task that touched it.
  have each : ∀ m task outcome m', Performs NodeSpec m task outcome m' →
      (m' (itemKey id) = some result.value ↔ Leaves id result.value task outcome ∨
        m (itemKey id) = some result.value ∧ ¬ Touches id task) :=
    fun _ _ _ _ performs => performs_leaves performs
  refine ⟨?_, missed⟩
  rw [hit, SpecRun.holds_iff each performed]
  simp

/-- If its commands are plain, a request can be made. -/
theorem Attached.exists_getItem (attached : Attached link m) {id : Nat} (startTime : Nat)
    {made : Nat} (now : Nat) (get : Plain (Call.get (itemKey id)).args)
    (set : Plain (Call.set (itemKey id) (generateValue id made) (some "60")).args) :
    ∃ result next m', Performs NodeStep link (.getItem id startTime made now) (.item result) next ∧
      Attached next m' := by
  obtain ⟨_, got⟩ := attached.exists_step (.call (.get (itemKey id))) get
  obtain ⟨_, spec, attached'⟩ := attached.step got
  cases spec
  -- The map decides whether the request goes on to its SET.
  cases found : (m (itemKey id)).filter (· ≠ "") with
  | some value =>
    obtain ⟨bound, filled⟩ := Option.filter_eq_some_iff.mp found
    rw [bound] at got
    exact ⟨_, _, _, .hit got (by simpa using filled), attached'⟩
  | none =>
    obtain ⟨_, stored⟩ :=
      attached'.exists_step (.call (.set (itemKey id) (generateValue id made) (some "60"))) set
    obtain ⟨_, spec', attached''⟩ := attached'.step stored
    cases spec'
    exact ⟨_, _, _, .miss got found stored, attached''⟩

/-- An item is requested, and again after an hour. -/
theorem getItem_hit_iff_left_hour : ∃ first second link next,
    SpecRun (Performs NodeStep) (.fresh []) [.getItem 7 0 0 0] [.item first] link ∧
      Performs NodeStep link (.getItem 7 3600000 3600000 3600000) (.item second) next ∧
      (second.hit = true ↔ ∃ before last after,
        [(Task.getItem 7 0 0 0, Outcome.item first)] = before ++ last :: after ∧
          Leaves 7 second.value last.1 last.2 ∧ ∀ other ∈ after, ¬ Touches 7 other.1) ∧
      (second.hit = false → second.value = generateValue 7 3600000) := by
  have key : itemKey 7 = "item:7" := rfl
  have value : generateValue 7 0 = "value_7_0" := rfl
  have value' : generateValue 7 3600000 = "value_7_3600000" := rfl
  have get : Plain (Call.get (itemKey 7)).args := by
    rw [key]
    exact ⟨by simp [Call.args, Ascii], by decide⟩
  have set : Plain (Call.set (itemKey 7) (generateValue 7 0) (some "60")).args := by
    rw [key, value]
    exact ⟨by simp [Call.args, Ascii], by decide⟩
  have set' : Plain (Call.set (itemKey 7) (generateValue 7 3600000) (some "60")).args := by
    rw [key, value']
    exact ⟨by simp [Call.args, Ascii], by decide⟩
  have start : Attached (.fresh []) fun _ => none := attached_fresh List.not_mem_nil
  obtain ⟨first, link, m, performed, attached⟩ := start.exists_getItem 0 0 get set
  obtain ⟨second, next, _, performs, -⟩ :=
    attached.exists_getItem 3600000 3600000 get set'
  have run := SpecRun.cons performed (.nil link)
  exact ⟨first, second, link, next, run, performs,
    getItem_hit_iff_left [] _ _ link next 7 3600000 3600000 3600000 second List.not_mem_nil run
      performs⟩

end ScuffedRedisClient
end ScuffedRedis
