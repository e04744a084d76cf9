import ScuffedRedis.Client.NodeReplies
import ScuffedRedis.Foundation.Simulation

/-!
# Replies in several events

A promise is resolved with what the first `data` event brings, and `pendingResponse` is never
used. Replies are decoded whole as long as every event that comes while a command waits is the
front of its own reply and holds all that the decoder needs of it.
-/
namespace ScuffedRedis
namespace ScuffedRedisClient

open Foundation Protocol

/-! ### The replies on the way -/

/-- The replies that the decoder knows. -/
inductive Reply where
  | simpleString (str : Bytes)
  | bulkString (str : Bytes)
  | null

namespace Reply

def message : Reply → Message
  | simpleString str => Message.makeSimpleString str
  | bulkString str => Message.makeBulkString str
  | null => Message.makeNull

def bytes (reply : Reply) : Bytes := reply.message.serialize

/-- The complete decoded value. -/
def value : Reply → Option String
  | simpleString str | bulkString str => some (Utf8.decode str)
  | null => none

end Reply

/-- The client, the replies to its commands in order, and the bytes of them that have not arrived
yet, with the numbers of their commands. `origins` are the commands whose replies the `data` events
have brought bytes of. -/
structure Wire where
  client : ScuffedRedisClient
  replies : List Reply
  arriving : List (Nat × Bytes)
  origins : List Nat

namespace Wire

def initial : Wire where
  client := ScuffedRedisClient.initial
  replies := []
  arriving := []
  origins := []

inductive Event where
  | command (args : List String) (reply : Reply)
  | data (chunk : Bytes)

/-- A command is sent when none waits. The bytes arrive in order, some at a time. -/
def step (wire : Wire) : Event → Option Wire
  | .command args reply =>
    if wire.client.listeners = [] then
      match buildCommand args with
      | none => some wire
      | some _ =>
        some { wire with
          client := wire.client.sendCommand args
          replies := wire.replies ++ [reply]
          arriving := wire.arriving ++ [(wire.client.written.length, reply.bytes)] }
    else none
  | .data chunk =>
    match wire.arriving with
    | [] => none
    | (command, rest) :: later =>
      if chunk ≠ [] ∧ chunk <+: rest then
        some { wire with
          client := wire.client.onData chunk
          arriving := if chunk = rest then later else (command, rest.drop chunk.length) :: later
          origins := wire.origins ++ [command] }
      else none

/-- A promise that is resolved has the complete value of the reply to its own command, with an
event that brought bytes of it. A reply has not arrived without its promise being resolved. -/
structure Whole (wire : Wire) : Prop where
  own : ∀ resolution ∈ wire.client.resolved,
    wire.origins[resolution.event]? = some resolution.command ∧
      wire.replies[resolution.command]?.map Reply.value = some resolution.result
  answered : ∀ command < wire.replies.length, (∀ rest, (command, rest) ∉ wire.arriving) →
    ∃ resolution ∈ wire.client.resolved, resolution.command = command

/-- The header, and as much of the text as decodes to the same. -/
def Suffices (chunk : Bytes) : Reply → Prop
  | .simpleString str | .bulkString str =>
    5 ≤ chunk.length ∧ Utf8.decode ((chunk.drop 5).take (str.length % 2 ^ 32)) = Utf8.decode str
  | .null => True

/-- The bytes that arrive while a command waits are of its own reply, and suffice. -/
def Allowed (wire : Wire) : Event → Prop
  | .command _ _ => wire.client.listeners = []
  | .data chunk => ∃ command rest later, wire.arriving = (command, rest) :: later ∧
      chunk ≠ [] ∧ chunk <+: rest ∧
      ∀ waiting ∈ wire.client.listeners, waiting = command ∧
        ∃ reply, wire.replies[waiting]? = some reply ∧ Suffices chunk reply

/-! ### The decoder on the front of a reply -/

theorem parseResponse_front {type : MessageType} {len : UInt32} {data chunk : Bytes}
    (front : chunk <+: frame type len data) :
    parseResponse chunk =
      if 5 ≤ chunk.length ∧ (type = .bulkString ∨ type = .simpleString) then
        some (Utf8.decode ((chunk.drop 5).take len.toNat))
      else none := by
  by_cases long : 5 ≤ chunk.length
  · -- The front is a frame of its own, with less data.
    obtain ⟨data', rfl⟩ : ∃ data', chunk = frame type len data' := by
      refine ⟨chunk.drop 5, ?_⟩
      have header : chunk.take 5 = (frame type len data).take 5 := by
        rw [List.prefix_iff_eq_take.mp front, List.take_take, Nat.min_eq_left long]
      calc chunk = chunk.take 5 ++ chunk.drop 5 := (List.take_append_drop 5 chunk).symm
        _ = frame type len (chunk.drop 5) := by rw [header]; rfl
    rw [parseResponse_frame]
    simp only [long, true_and]
    rfl
  · rw [if_neg fun all => long all.1]
    unfold parseResponse
    split
    · simp at long
    · rfl

/-- What the client makes of the front of a reply is the value exactly when the front suffices. -/
theorem parseResponse_eq_value_iff {reply : Reply} {chunk : Bytes} (front : chunk <+: reply.bytes) :
    parseResponse chunk = reply.value ↔ Suffices chunk reply := by
  -- Both kinds of strings are decoded alike.
  have text {type : MessageType} {str : Bytes} (named : type = .bulkString ∨ type = .simpleString)
      (front : chunk <+: frame type (UInt32.ofNat str.length) str) :
      parseResponse chunk = some (Utf8.decode str) ↔
        5 ≤ chunk.length ∧
          Utf8.decode ((chunk.drop 5).take (str.length % 2 ^ 32)) = Utf8.decode str := by
    rw [parseResponse_front front]
    by_cases long : 5 ≤ chunk.length
    · rw [if_pos ⟨long, named⟩, Option.some.injEq, UInt32.toNat_ofNat']
      exact ⟨fun same => ⟨long, same⟩, fun all => all.2⟩
    · rw [if_neg fun all => long all.1]
      exact ⟨nofun, fun all => absurd all.1 long⟩
  cases reply with
  | simpleString str => exact text (.inr rfl) front
  | bulkString str => exact text (.inl rfl) front
  | null =>
    -- No front of a null decodes to a string.
    have read : parseResponse chunk = none := by
      rw [parseResponse_front (show chunk <+: frame .nullValue 0 [] from front), if_neg (by simp)]
    exact ⟨fun _ => trivial, fun _ => read⟩

/-! ### Steps -/

/-- Bytes of the oldest reply that is still on the way arrive. -/
def delivered (wire : Wire) (command : Nat) (rest : Bytes) (later : List (Nat × Bytes))
    (chunk : Bytes) : Wire :=
  { wire with
    client := wire.client.onData chunk
    arriving := if chunk = rest then later else (command, rest.drop chunk.length) :: later
    origins := wire.origins ++ [command] }

theorem step_data_iff {wire next : Wire} {chunk : Bytes} :
    step wire (.data chunk) = some next ↔
      ∃ command rest later, wire.arriving = (command, rest) :: later ∧ chunk ≠ [] ∧
        chunk <+: rest ∧ next = wire.delivered command rest later chunk := by
  rw [step]
  constructor
  · intro stepped
    split at stepped
    · cases stepped
    next command rest later arriving =>
      split at stepped
      next front =>
        cases stepped
        exact ⟨command, rest, later, arriving, front.1, front.2, rfl⟩
      · cases stepped
  · rintro ⟨command, rest, later, arriving, nonempty, front, rfl⟩
    simp only [arriving, if_pos (And.intro nonempty front)]
    rfl

/-- What is known in a run of allowed steps: the reply to a command that waits is still whole, and
a command that does not wait is resolved. -/
structure Kept (wire : Wire) : Prop where
  written : wire.client.written.length = wire.replies.length
  events : wire.client.replies.length = wire.origins.length
  own : ∀ resolution ∈ wire.client.resolved,
    wire.origins[resolution.event]? = some resolution.command ∧
      wire.replies[resolution.command]?.map Reply.value = some resolution.result
  known : ∀ entry ∈ wire.arriving, entry.1 < wire.replies.length
  untouched : ∀ waiting ∈ wire.client.listeners, ∀ rest, (waiting, rest) ∈ wire.arriving →
    wire.replies[waiting]?.map Reply.bytes = some rest
  pending : ∀ command < wire.replies.length,
    (∃ resolution ∈ wire.client.resolved, resolution.command = command) ∨
      command ∈ wire.client.listeners ∧ ∃ rest, (command, rest) ∈ wire.arriving

theorem Kept.initial : Kept initial where
  written := rfl
  events := rfl
  own := nofun
  known := nofun
  untouched := nofun
  pending := nofun

theorem Kept.whole {wire : Wire} (kept : Kept wire) : Whole wire where
  own := kept.own
  answered := by
    intro command inside arrived
    rcases kept.pending command inside with resolved | ⟨-, rest, onTheWay⟩
    · exact resolved
    · exact absurd onTheWay (arrived rest)

theorem getElem?_concat_of_some {α : Type*} {l : List α} {i : Nat} {a : α} (found : l[i]? = some a)
    (b : α) : (l ++ [b])[i]? = some a := by
  obtain ⟨inside, -⟩ := List.getElem?_eq_some_iff.mp found
  rw [List.getElem?_append_left inside, found]

theorem getElem?_map_concat_of_some {α β : Type*} {f : α → β} {l : List α} {i : Nat} {b : β}
    (found : l[i]?.map f = some b) (a : α) : (l ++ [a])[i]?.map f = some b := by
  obtain ⟨a', found', rfl⟩ := Option.map_eq_some_iff.mp found
  rw [getElem?_concat_of_some found']
  rfl

theorem Kept.command {wire : Wire} (kept : Kept wire) (idle : wire.client.listeners = [])
    (args : List String) (reply : Reply) :
    ∃ next, step wire (.command args reply) = some next ∧ Kept next := by
  rw [step, if_pos idle]
  cases built : buildCommand args with
  | none => exact ⟨wire, rfl, kept⟩
  | some cmd =>
    have sent : wire.client.sendCommand args =
        { wire.client with
          written := wire.client.written ++ [cmd]
          listeners := wire.client.listeners ++ [wire.client.written.length] } := by
      rw [sendCommand, built]
    refine ⟨_, rfl, ?_⟩
    -- No other command waits, so this one is the only listener.
    simp only [sent, idle, kept.written, List.nil_append]
    constructor
    case written => simp [kept.written]
    case events => exact kept.events
    case own =>
      intro resolution listed
      obtain ⟨origin, value⟩ := kept.own resolution listed
      exact ⟨origin, getElem?_map_concat_of_some value reply⟩
    case known =>
      intro entry listed
      rw [List.length_append, List.length_singleton]
      rcases List.mem_append.mp listed with old | new
      · have := kept.known entry old
        omega
      · rw [List.mem_singleton.mp new]
        exact Nat.lt_succ_self _
    case untouched =>
      -- No older reply has the number of the new command.
      intro waiting listed rest onTheWay
      obtain rfl := List.mem_singleton.mp listed
      rcases List.mem_append.mp onTheWay with old | new
      · exact absurd (kept.known _ old) (lt_irrefl _)
      · cases List.mem_singleton.mp new
        simp
    case pending =>
      intro command inside
      rw [List.length_append, List.length_singleton] at inside
      by_cases new : command = wire.replies.length
      · subst new
        exact .inr ⟨List.mem_singleton_self _, reply.bytes, by simp⟩
      · rcases kept.pending command (by omega) with resolved | ⟨listed, -⟩
        · exact .inl resolved
        · rw [idle] at listed
          cases listed

/-- An event resolves a promise with its complete value exactly when it brings enough of the reply
to its command. -/
theorem Kept.resolved_iff {wire : Wire} (kept : Kept wire) {command waiting : Nat}
    {rest chunk : Bytes} {later : List (Nat × Bytes)}
    (arriving : wire.arriving = (command, rest) :: later) (front : chunk <+: rest)
    (listed : waiting ∈ wire.client.listeners) :
    ((wire.origins ++ [command])[wire.client.replies.length]? = some waiting ∧
        wire.replies[waiting]?.map Reply.value = some (parseResponse chunk)) ↔
      waiting = command ∧ ∃ reply, wire.replies[waiting]? = some reply ∧ Suffices chunk reply := by
  rw [kept.events, List.getElem?_concat_length, Option.some.injEq, eq_comm]
  refine and_congr_right ?_
  rintro rfl
  have whole := kept.untouched waiting listed rest (by rw [arriving]; exact List.mem_cons_self)
  obtain ⟨reply, found, rfl⟩ := Option.map_eq_some_iff.mp whole
  rw [found, Option.map_some, Option.some.injEq, eq_comm, parseResponse_eq_value_iff front]
  simp

theorem Kept.data {wire : Wire} (kept : Kept wire) {chunk : Bytes}
    (allowed : Allowed wire (.data chunk)) :
    ∃ next, step wire (.data chunk) = some next ∧ Kept next := by
  obtain ⟨command, rest, later, arriving, nonempty, front, each⟩ := allowed
  refine ⟨_, step_data_iff.mpr ⟨command, rest, later, arriving, nonempty, front, rfl⟩, ?_⟩
  constructor
  case written => exact kept.written
  case events =>
    change (wire.client.replies ++ [chunk]).length = (wire.origins ++ [command]).length
    rw [List.length_append, List.length_append, kept.events]
    rfl
  case own =>
    intro resolution listed
    rcases List.mem_append.mp listed with old | new
    · obtain ⟨origin, value⟩ := kept.own resolution old
      exact ⟨getElem?_concat_of_some origin command, value⟩
    · -- A resolution by this event is right as far as the event brings enough.
      obtain ⟨waiting, waits, rfl⟩ := List.mem_map.mp new
      exact (kept.resolved_iff arriving front waits).mpr (each waiting waits)
  case known =>
    intro entry listed
    change entry ∈ (if chunk = rest then later else (command, rest.drop chunk.length) :: later)
      at listed
    have first : command < wire.replies.length :=
      kept.known (command, rest) (by rw [arriving]; exact List.mem_cons_self)
    have others : ∀ entry ∈ later, entry.1 < wire.replies.length := fun entry listed =>
      kept.known entry (by rw [arriving]; exact List.mem_cons_of_mem _ listed)
    split at listed
    · exact others entry listed
    · rcases List.mem_cons.mp listed with rfl | listed
      · exact first
      · exact others entry listed
  -- The event has resolved all commands that waited.
  case untouched => exact fun _ listed => absurd listed List.not_mem_nil
  case pending =>
    intro command' inside
    left
    rcases kept.pending command' inside with ⟨resolution, listed, named⟩ | ⟨waits, -⟩
    · exact ⟨resolution, List.mem_append_left _ listed, named⟩
    · exact ⟨_, List.mem_append_right _ (List.mem_map_of_mem waits), rfl⟩

/-- The replies of a run are decoded whole, and by their own commands, exactly when every event
that comes while a command waits brings enough of the reply to it. -/
theorem throughout_whole_iff (events : List Event) :
    Throughout step Whole initial events ↔ EachStep step Allowed initial events := by
  have implied (wire : Wire) : Kept wire → Whole wire := Kept.whole
  refine throughout_iff implied ?_ ?_ .initial events
  · intro wire event kept allowed
    cases event with
    | command args reply => exact kept.command allowed args reply
    | data chunk => exact kept.data allowed
  · intro wire event next kept forbidden stepped whole
    cases event with
    | command args reply =>
      rw [step] at stepped
      split at stepped
      next idle => exact forbidden idle
      next => cases stepped
    | data chunk =>
      obtain ⟨command, rest, later, arriving, nonempty, front, rfl⟩ := step_data_iff.mp stepped
      refine forbidden ⟨command, rest, later, arriving, nonempty, front, fun waiting waits => ?_⟩
      -- The promise of this command is among those that the event has resolved.
      have resolved := whole.own ⟨waiting, wire.client.replies.length, parseResponse chunk⟩
        (List.mem_append_right _ (List.mem_map_of_mem waits))
      exact (kept.resolved_iff arriving front waits).mp resolved

/-- A reply in two events: the promise gets the front of the value, and the rest goes to the next
command. -/
theorem split_reply_truncated :
    ¬ ∀ events : List Event, (∃ last, events.foldlM step initial = some last) →
      Throughout step Whole initial events := by
  intro always
  obtain ⟨-, first, stepped, -, second, stepped', whole, -⟩ :=
    always [.command ["GET", "a"] (.bulkString (text "hello")),
      .data [0x04, 0x05, 0x00, 0x00, 0x00, 0x68], .command ["GET", "b"] .null,
      .data (text "ello")] ⟨_, rfl⟩
  cases stepped
  cases stepped'
  have wrong := whole.own ⟨0, 0, some "h"⟩ (by decide)
  exact absurd wrong.2 (by decide)

end Wire
end ScuffedRedisClient
end ScuffedRedis
