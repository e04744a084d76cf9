import ScuffedRedis.Foundation.PrefixCode
import ScuffedRedis.Protocol.RoundTrip

/-!
# Streams of messages can be decoded in one way only

The serialized messages are a prefix code: none goes on with another. So two lists of messages
give the same bytes exactly when a peer reads the same messages from them.
-/
namespace ScuffedRedis.Protocol

open Foundation Message

/-- The bytes of one message. -/
def Frame (bytes : Bytes) : Prop := ∃ msg : Message, msg.Encodable ∧ bytes = msg.serialize

theorem Frame.takes {bytes : Bytes} (frame : Frame bytes) :
    ∃ msg, ∀ rest, Takes (bytes ++ rest) [msg] rest := by
  obtain ⟨msg, built, rfl⟩ := frame
  exact ⟨msg.readBack, takes_serialize built⟩

theorem frame_prefixCode : PrefixCode Frame where
  nonempty := by
    intro bytes frame empty
    obtain ⟨msg, takes⟩ := frame.takes
    subst empty
    -- Nothing can be taken from nothing.
    cases takes [] with
    | text type length header | integer header | null length header | array count elems header =>
      cases header
  free := by
    intro bytes bytes' rest rest' frame frame' same
    obtain ⟨msg, takes⟩ := frame.takes
    obtain ⟨msg', takes'⟩ := frame'.takes
    have taken := takes rest
    rw [same] at taken
    obtain ⟨-, rfl⟩ := takes_unique taken (takes' rest')
    exact List.append_cancel_right same

/-- Messages with the same bytes are read back as the same message. -/
theorem readBack_of_serialize {msg msg' : Message} (built : msg.Encodable) (built' : msg'.Encodable)
    (same : msg.serialize = msg'.serialize) : msg.readBack = msg'.readBack := by
  have takes := takes_serialize built []
  rw [same] at takes
  exact (takes_unique takes (takes_serialize built' [])).1

theorem serializeElements_readBack (elems : List (Option Message))
    (each : ∀ elem, some elem ∈ elems → elem.readBack.serialize = elem.serialize) :
    serializeElements ((readBackElements elems).map some) = serializeElements elems := by
  induction elems with
  | nil => rfl
  | cons elem others ih =>
    have later := ih fun elem listed => each elem (List.mem_cons_of_mem _ listed)
    cases elem with
    | none =>
      rw [readBackElements, List.map_cons, serializeElements, serializeElements, later]
      rfl
    | some elem =>
      rw [readBackElements, List.map_cons, serializeElements, serializeElements, later,
        each elem List.mem_cons_self]

/-- A peer that writes what it has read writes the same bytes. -/
theorem serialize_readBack {msg : Message} (built : msg.Encodable) :
    msg.readBack.serialize = msg.serialize := by
  induction built with
  | simpleString | error | integer | bulkString | null => rfl
  | array elems _ _ each =>
    have body := serializeElements_readBack elems each
    rw [makeArray, readBack, serialize, serialize, body, List.length_map,
      length_readBackElements]

theorem serializeMessages_eq (msgs : List Message) :
    serializeMessages (msgs.map some) = (msgs.map serialize).flatten := by
  rw [serializeMessages, List.flatMap_map, List.flatMap_def]

theorem frames_of_encodable {msgs : List Message} (built : ∀ msg ∈ msgs, msg.Encodable) :
    ∀ bytes ∈ msgs.map serialize, Frame bytes := by
  intro bytes listed
  obtain ⟨msg, member, rfl⟩ := List.mem_map.mp listed
  exact ⟨msg, built msg member, rfl⟩

theorem map_readBack_of_serialize {msgs msgs' : List Message}
    (built : ∀ msg ∈ msgs, msg.Encodable) (built' : ∀ msg ∈ msgs', msg.Encodable) :
    msgs.map serialize = msgs'.map serialize ↔ msgs.map readBack = msgs'.map readBack := by
  have rewrite (msgs : List Message) (built : ∀ msg ∈ msgs, msg.Encodable) :
      msgs.map serialize = (msgs.map readBack).map serialize := by
    rw [List.map_map]
    exact List.map_congr_left fun msg member => (serialize_readBack (built msg member)).symm
  constructor
  · intro same
    induction msgs generalizing msgs' with
    | nil =>
      rw [List.map_nil, eq_comm, List.map_eq_nil_iff] at same
      rw [same]
    | cons msg msgs ih =>
      cases msgs' with
      | nil => cases same
      | cons msg' msgs' =>
        rw [List.forall_mem_cons] at built built'
        rw [List.map_cons, List.map_cons, List.cons.injEq] at same
        rw [List.map_cons, List.map_cons, readBack_of_serialize built.1 built'.1 same.1,
          ih built.2 built'.2 same.2]
  · intro same
    rw [rewrite msgs built, rewrite msgs' built', same]

/-- **Unique decoding.** Two streams of messages, each with a rest in front of which no whole
message stands, have the same bytes exactly when the same messages are read from them and the
same rest is left. -/
theorem serializeMessages_unique (msgs msgs' : List Message) (rest rest' : Bytes)
    (built : ∀ msg ∈ msgs, msg.Encodable) (built' : ∀ msg ∈ msgs', msg.Encodable)
    (stop : ¬ Ahead Frame rest) (stop' : ¬ Ahead Frame rest') :
    serializeMessages (msgs.map some) ++ rest = serializeMessages (msgs'.map some) ++ rest' ↔
      msgs.map readBack = msgs'.map readBack ∧ rest = rest' := by
  rw [← map_readBack_of_serialize built built', serializeMessages_eq, serializeMessages_eq]
  constructor
  · intro same
    exact frame_prefixCode.split_unique (frames_of_encodable built) (frames_of_encodable built')
      stop stop' same
  · rintro ⟨same, rfl⟩
    rw [same]

/-- A missing element and a null element look the same to the peer. -/
theorem serializeMessages_unique_null :
    serializeMessages ([makeArray [none]].map some) ++ [] =
        serializeMessages ([makeArray [some makeNull]].map some) ++ [] ↔
      [makeArray [none]].map readBack = [makeArray [some makeNull]].map readBack ∧
        ([] : Bytes) = [] := by
  have nothing : ¬ Ahead Frame [] := by
    rintro ⟨bytes, rest, frame, split⟩
    exact frame_prefixCode.nonempty frame (List.append_eq_nil_iff.mp split.symm).1
  refine serializeMessages_unique [makeArray [none]] [makeArray [some makeNull]] [] [] ?_ ?_
    nothing nothing
  · intro msg listed
    obtain rfl := List.mem_singleton.mp listed
    exact .array [none] (by decide) fun elem member => by simp at member
  · intro msg listed
    obtain rfl := List.mem_singleton.mp listed
    refine .array [some makeNull] (by decide) fun elem member => ?_
    obtain rfl := Option.some.inj (List.mem_singleton.mp member)
    exact .null

end ScuffedRedis.Protocol
