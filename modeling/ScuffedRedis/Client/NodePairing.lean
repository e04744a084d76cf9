import ScuffedRedis.Client.NodeClient
import ScuffedRedis.Foundation.Simulation

/-!
# Which reply a promise gets

A `data` event resolves every promise that waits. Promises and replies stay paired as long as no
event comes while two commands are outstanding.
-/
namespace ScuffedRedis
namespace ScuffedRedisClient

open Foundation

/-- Every promise that is resolved has the reply to its own command, no reply serves two promises,
and no reply has come without its promise being resolved. -/
structure Paired (client : ScuffedRedisClient) : Prop where
  own : ∀ resolution ∈ client.resolved, resolution.event = resolution.command ∧
    client.replies[resolution.command]?.map parseResponse = some resolution.result
  distinct : (client.resolved.map Resolution.event).Nodup
  answered : ∀ command < client.replies.length,
    ∃ resolution ∈ client.resolved, resolution.command = command

/-- When an event comes, exactly one command is outstanding. -/
def OneOutstanding (client : ScuffedRedisClient) : Event → Prop
  | .sendCommand _ => True
  | .data _ => client.written.length = client.replies.length + 1

/-- The promises are resolved in order, and the later ones wait. -/
structure InOrder (client : ScuffedRedisClient) : Prop where
  arrived : client.replies.length ≤ client.written.length
  waiting : client.listeners =
    List.range' client.replies.length (client.written.length - client.replies.length)
  resolved : client.resolved =
    client.replies.mapIdx fun command reply => ⟨command, command, parseResponse reply⟩

theorem InOrder.initial : InOrder initial := ⟨Nat.le_refl _, rfl, rfl⟩

theorem InOrder.paired {client : ScuffedRedisClient} (inOrder : InOrder client) :
    Paired client := by
  constructor
  · intro resolution listed
    rw [inOrder.resolved, List.mem_mapIdx] at listed
    obtain ⟨command, inside, rfl⟩ := listed
    refine ⟨rfl, ?_⟩
    rw [List.getElem?_eq_getElem inside, Option.map_some]
  · have order : client.resolved.map Resolution.event = List.range client.replies.length := by
      rw [inOrder.resolved]
      apply List.ext_getElem
      · simp
      · intro command inside _
        simp
    -- The events are numbered as they come, so no two promises name the same one.
    rw [order]
    exact List.nodup_range
  · intro command inside
    refine ⟨⟨command, command, parseResponse client.replies[command]⟩, ?_, rfl⟩
    rw [inOrder.resolved, List.mem_mapIdx]
    exact ⟨command, inside, rfl⟩

theorem InOrder.sendCommand {client : ScuffedRedisClient} (inOrder : InOrder client)
    (args : List String) : InOrder (client.sendCommand args) := by
  unfold ScuffedRedisClient.sendCommand
  cases buildCommand args with
  | none => exact inOrder
  | some cmd =>
    have arrived := inOrder.arrived
    refine ⟨?_, ?_, inOrder.resolved⟩
    · change client.replies.length ≤ (client.written ++ [cmd]).length
      rw [List.length_append]
      omega
    · have one : (client.written ++ [cmd]).length - client.replies.length =
          client.written.length - client.replies.length + 1 := by
        rw [List.length_append, List.length_singleton]
        omega
      -- The new listener follows those that wait.
      have last : client.replies.length + (client.written.length - client.replies.length) =
          client.written.length := by omega
      change client.listeners ++ [client.written.length] = _
      rw [one, List.range'_1_concat, last, inOrder.waiting]

/-- With one command outstanding, its promise alone waits. -/
theorem InOrder.onData {client : ScuffedRedisClient} (inOrder : InOrder client) (reply : Bytes)
    (one : client.written.length = client.replies.length + 1) : InOrder (client.onData reply) := by
  have single : client.listeners = [client.replies.length] := by
    rw [inOrder.waiting, one, Nat.add_sub_cancel_left]
    rfl
  refine ⟨?_, ?_, ?_⟩
  · change (client.replies ++ [reply]).length ≤ client.written.length
    rw [List.length_append, one, List.length_singleton]
  · change [] = List.range' _ (client.written.length - (client.replies ++ [reply]).length)
    rw [List.length_append, one, List.length_singleton, Nat.sub_self]
    rfl
  · change client.resolved ++ client.listeners.map _ = (client.replies ++ [reply]).mapIdx _
    rw [inOrder.resolved, single, List.mapIdx_concat]
    rfl

/-- With more than one command outstanding, the promise of the second gets the first one's
reply. -/
theorem InOrder.not_paired_onData {client : ScuffedRedisClient} (inOrder : InOrder client)
    (reply : Bytes) (more : client.replies.length + 1 < client.written.length) :
    ¬ Paired (client.onData reply) := by
  intro paired
  -- The event has the number of the first command that waits, and it resolves the second too.
  have waits : client.replies.length + 1 ∈ client.listeners := by
    rw [inOrder.waiting, List.mem_range'_1]
    omega
  have wrong := paired.own ⟨client.replies.length + 1, client.replies.length, parseResponse reply⟩
    (List.mem_append_right _ (List.mem_map_of_mem waits))
  exact absurd wrong.1 (Nat.ne_of_lt (Nat.lt_succ_self _))

/-- **Pairing.** Promises and replies are paired in every state of a run exactly when every reply
of the run comes while its command alone is outstanding. -/
theorem throughout_paired_iff (events : List Event) :
    Throughout step Paired initial events ↔ EachStep step OneOutstanding initial events := by
  have implied (client : ScuffedRedisClient) : InOrder client → Paired client := InOrder.paired
  refine throughout_iff implied ?_ ?_ .initial events
  -- Commands never disturb the order, and an event only with several promises waiting.
  · intro client event inOrder allowed
    cases event with
    | sendCommand args => exact ⟨_, rfl, inOrder.sendCommand args⟩
    | data reply =>
      have outstanding : client.written.length = client.replies.length + 1 := allowed
      refine ⟨client.onData reply, ?_, inOrder.onData reply outstanding⟩
      rw [step, if_pos (by omega)]
  · intro client event next inOrder forbidden stepped
    cases event with
    | sendCommand args => exact absurd trivial forbidden
    | data reply =>
      rw [step] at stepped
      split at stepped
      next owed =>
        cases stepped
        exact inOrder.not_paired_onData reply (by
          have several : ¬ client.written.length = client.replies.length + 1 := forbidden
          omega)
      next => cases stepped

/-- Two commands at once, and the reply to the first. -/
theorem two_outstanding_unpaired :
    ¬ ∀ events : List Event, (∃ last, events.foldlM step initial = some last) →
      Throughout step Paired initial events := by
  intro always
  obtain ⟨-, first, stepped, -, second, stepped', -, third, stepped'', paired⟩ :=
    always [.sendCommand ["GET", "a"], .sendCommand ["GET", "b"],
      .data [0x04, 0x01, 0x00, 0x00, 0x00, 0x31]] ⟨_, rfl⟩
  cases stepped
  cases stepped'
  cases stepped''
  have wrong := paired.own ⟨1, 0, some "1"⟩ (by decide)
  exact absurd wrong.1 (by decide)

end ScuffedRedisClient
end ScuffedRedis
