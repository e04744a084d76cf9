import ScuffedRedis.Client.NodeSession

/-!
# Times to live through the Node client

`redisSet` sends the time to live behind EX, and `handle_set` ignores what follows the value. So a
value is returned however long ago it was to expire.
-/
namespace ScuffedRedis
namespace ScuffedRedisClient

open Foundation Protocol

/-! ### Calls and their times -/

/-- A time to live is a number of seconds. -/
inductive CacheCall where
  | set (key value : String) (ttl : Option ℚ)
  | get (key : String)

/-- A call and the time when it is issued, in milliseconds. -/
structure Issued where
  now : ℚ
  call : CacheCall

/-- The method that `redisSet` and `redisGet` call. `toText` is the `toString` of numbers; a time to
live of zero is not sent. -/
def CacheCall.method (toText : ℚ → String) : CacheCall → Method
  | set key value ttl => .call (.set key value ((ttl.filter (· ≠ 0)).map toText))
  | get key => .call (.get key)

section Calls

variable (toText : ℚ → String)

/-- The client and the server after these calls. What the server has not taken from the bytes of one
call stays in its parser for the next. -/
def runCalls (calls : List Issued) : NodeLink :=
  calls.foldl (fun link issued => link.send (issued.call.method toText).args) (.fresh [])

/-- In the run of `calls` the promise of the one that follows `before` is resolved with `result`, by
its own reply or by a later one. -/
def Resolves (calls before : List Issued) (issued : Issued) (result : Option String) : Prop :=
  (buildCommand (issued.call.method toText).args).isSome ∧
    ∃ event, ⟨(runCalls toText before).client.written.length, event, result⟩ ∈
      (runCalls toText calls).client.resolved

/-- A get that is issued after the time to live of the last value that the key was set to. -/
def Overdue (before : List Issued) (issued : Issued) (key value : String) : Prop :=
  issued.call = .get key ∧ ∃ earlier now ttl between,
    before = earlier ++ ⟨now, .set key value (some ttl)⟩ :: between ∧
    (∀ other ∈ between, ∀ value' ttl', other.call ≠ .set key value' ttl') ∧
    0 < ttl ∧ now + ttl * 1000 ≤ issued.now

/-- No get returns a value after its time to live. -/
def Honoured (calls : List Issued) : Prop :=
  ∀ before issued after key value, calls = before ++ issued :: after →
    Overdue before issued key value → ¬ Resolves toText calls before issued (some value)

/-- The values of the keys after a call. -/
def CacheCall.update (values : String → Option String) : CacheCall → (String → Option String)
  | set key value _ => Function.update values key (some value)
  | get _ => values

/-- The last values that the keys were set to. -/
def lastSet (calls : List Issued) : String → Option String :=
  calls.foldl (fun values issued => issued.call.update values) fun _ => none

end Calls

/-! ### Runs of plain calls -/

theorem lastSet_concat (before : List Issued) (issued : Issued) :
    lastSet (before ++ [issued]) = issued.call.update (lastSet before) := by
  rw [lastSet, List.foldl_append]
  rfl

/-- Calls that do not set the key leave the last value that it was set to. -/
theorem lastSet_between {before between : List Issued} {key : String}
    (others : ∀ other ∈ between, ∀ value ttl, other.call ≠ .set key value ttl) :
    lastSet (before ++ between) key = lastSet before key := by
  induction between using List.reverseRecOn with
  | nil => rw [List.append_nil]
  | append_singleton between issued ih =>
    rw [List.forall_mem_append, List.forall_mem_singleton] at others
    rw [← List.append_assoc, lastSet_concat]
    obtain ⟨now, call⟩ := issued
    cases call with
    | get key' => exact ih others.1
    | set key' value ttl =>
      have different : key ≠ key' := by
        rintro rfl
        exact others.2 value ttl rfl
      rw [← ih others.1]
      exact Function.update_of_ne different _ _

/-- When a get is overdue, the value is the last one that its key was set to. -/
theorem lastSet_of_overdue {before : List Issued} {issued : Issued} {key value : String}
    (overdue : Overdue before issued key value) : lastSet before key = some value := by
  obtain ⟨-, earlier, now, ttl, between, rfl, others, -, -⟩ := overdue
  rw [← List.singleton_append, ← List.append_assoc, lastSet_between others, lastSet_concat]
  exact Function.update_self _ _ _

section Runs

variable {toText : ℚ → String} {before after : List Issued} {issued : Issued}

theorem runCalls_concat (before : List Issued) (issued : Issued) :
    runCalls toText (before ++ [issued]) =
      (runCalls toText before).send (issued.call.method toText).args := by
  rw [runCalls, List.foldl_append]
  rfl

theorem resolved_runCalls {resolution : Resolution}
    (listed : resolution ∈ (runCalls toText before).client.resolved) :
    resolution ∈ (runCalls toText (before ++ after)).client.resolved := by
  induction after using List.reverseRecOn with
  | nil => rwa [List.append_nil]
  | append_singleton after issued ih =>
    rw [← List.append_assoc, runCalls_concat]
    exact NodeLink.resolved_send ih

theorem nodeSpec_set {m m' : String → Option String} {key value : String} {ttl : Option String}
    {returned : Returned} (set : NodeSpec m (.call (.set key value ttl)) returned m') :
    m' = Function.update m key (some value) := by
  cases set
  rfl

theorem nodeSpec_get {m m' : String → Option String} {key : String} {found : Option String}
    (got : NodeSpec m (.call (.get key)) (.value found) m') : found = m key ∧ m' = m := by
  generalize returned : Returned.value found = result at got
  cases got
  cases returned
  exact ⟨rfl, rfl⟩

/-- One more plain call sets the value of its key, or gets it. -/
theorem attached_concat (attached : Attached (runCalls toText before) (lastSet before))
    (plain : Plain (issued.call.method toText).args) :
    Attached (runCalls toText (before ++ [issued])) (lastSet (before ++ [issued])) := by
  obtain ⟨returned, step⟩ := attached.exists_step _ plain
  obtain ⟨m', spec, attached'⟩ := attached.step step
  rw [runCalls_concat, lastSet_concat]
  obtain ⟨now, call⟩ := issued
  cases call with
  | set key value ttl =>
    obtain rfl := nodeSpec_set spec
    exact attached'
  | get key =>
    cases spec
    exact attached'

theorem attached_runCalls (plain : ∀ issued ∈ before, Plain (issued.call.method toText).args) :
    Attached (runCalls toText before) (lastSet before) := by
  induction before using List.reverseRecOn with
  | nil => exact attached_fresh List.not_mem_nil
  | append_singleton before issued ih =>
    rw [List.forall_mem_append, List.forall_mem_singleton] at plain
    exact attached_concat (ih plain.1) plain.2

/-- Among plain calls a get resolves with the last value that its key was set to. -/
theorem resolves_get {key : String}
    (plain : ∀ issued ∈ before, Plain (issued.call.method toText).args)
    (plainLast : Plain (issued.call.method toText).args) (named : issued.call = .get key) :
    Resolves toText (before ++ issued :: after) before issued (lastSet before key) := by
  have attached := attached_runCalls plain
  obtain ⟨returned, step⟩ := attached.exists_step _ plainLast
  obtain ⟨event, result, returns, resolved⟩ := step.resolved
  obtain ⟨m', spec, -⟩ := attached.step step
  refine ⟨by rw [plainLast.built]; rfl, event, ?_⟩
  rw [named] at returns spec
  subst returns
  -- What the method returns is what its promise is resolved with.
  obtain ⟨rfl, -⟩ := nodeSpec_get spec
  rw [← List.singleton_append, ← List.append_assoc]
  refine resolved_runCalls ?_
  rwa [runCalls_concat]

end Runs

/-- Times to live are honoured when no get is overdue. In runs of plain calls they are honoured only
then. -/
theorem honoured_iff (toText : ℚ → String) (calls : List Issued) :
    ((∀ before issued after key value, calls = before ++ issued :: after →
        ¬ Overdue before issued key value) → Honoured toText calls) ∧
      ((∀ issued ∈ calls, Plain (issued.call.method toText).args) →
        (Honoured toText calls ↔ ∀ before issued after key value,
          calls = before ++ issued :: after → ¬ Overdue before issued key value)) := by
  have enough (never : ∀ before issued after key value, calls = before ++ issued :: after →
      ¬ Overdue before issued key value) : Honoured toText calls :=
    fun before issued after key value split overdue =>
      absurd overdue (never before issued after key value split)
  refine ⟨enough, fun plain => ⟨fun honoured before issued after key value split overdue => ?_,
    enough⟩⟩
  refine honoured before issued after key value split overdue ?_
  subst split
  rw [List.forall_mem_append, List.forall_mem_cons] at plain
  rw [← lastSet_of_overdue overdue]
  exact resolves_get plain.1 plain.2.1 overdue.1

/-- A value with a time to live of a second is returned after that second. -/
theorem overdue_value_returned :
    ¬ ∀ (toText : ℚ → String) (calls : List Issued), Honoured toText calls := by
  intro always
  have overdue : Overdue [⟨0, .set "k" "v" (some 1)⟩] ⟨1000, .get "k"⟩ "k" "v" :=
    ⟨rfl, [], 0, 1, [], rfl, by simp, by norm_num, by norm_num⟩
  refine always (fun _ => "1") [⟨0, .set "k" "v" (some 1)⟩, ⟨1000, .get "k"⟩]
    [⟨0, .set "k" "v" (some 1)⟩] ⟨1000, .get "k"⟩ [] "k" "v" rfl overdue ?_
  rw [← lastSet_of_overdue overdue]
  refine resolves_get ?_ ?_ rfl
  · have args : ((CacheCall.set "k" "v" (some 1)).method fun _ => "1").args =
        ["SET", "k", "v", "EX", "1"] := rfl
    rw [List.forall_mem_singleton, args]
    exact ⟨by simp [Ascii], by decide⟩
  · exact ⟨by simp [CacheCall.method, Method.args, Call.args, Ascii], by decide⟩

end ScuffedRedisClient
end ScuffedRedis
