import ScuffedRedis.Protocol.ParserLaws

/-!
# Announced sizes

`serialized_size` walks a message a second time, to reserve the bytes that `serialize` then
writes. The two walks agree, also where the value does not fit the type and where an element
pointer is null.
-/
namespace ScuffedRedis.Protocol

namespace Message

/-- The branches of `serialized_size` that do not recurse. Here `as_array()` is null. -/
def sizeFlat (msg : Message) : Nat :=
  match msg.getType with
  | .simpleString | .errorMsg | .bulkString => 5 + msg.asString.length
  | .integer => 5 + 8
  | .array => 5
  | .nullValue => 5

mutual

/-- Type, length and data. The sum is that of a `size_t` that does not overflow. -/
def serializedSize : Message → Nat
  | .array .array elems => 5 + elementsSize elems
  | msg => msg.sizeFlat

/-- The loop over the elements. A null element counts 5 bytes. -/
def elementsSize : List (Option Message) → Nat
  | [] => 0
  | some elem :: rest => elem.serializedSize + elementsSize rest
  | none :: rest => 5 + elementsSize rest

end

end Message

/-- The loop of `serialize_messages` that adds up `total_size`. -/
def totalSize (messages : List (Option Message)) : Nat :=
  messages.foldl (fun total msg => match msg with
    | some msg => total + msg.serializedSize
    | none => total) 0

namespace Message

theorem sizeFlat_eq (msg : Message) : msg.sizeFlat = msg.serializeFlat.length := by
  unfold sizeFlat serializeFlat
  cases msg.getType <;> simp [length_frame, length_integerBytes]

theorem elementsSize_eq {elems : List (Option Message)}
    (each : ∀ elem, some elem ∈ elems → elem.serializedSize = elem.serialize.length) :
    elementsSize elems = (serializeElements elems).length := by
  induction elems with
  | nil => simp [elementsSize, serializeElements]
  | cons elem rest ih =>
    have others := ih fun elem member => each elem (List.mem_cons_of_mem _ member)
    cases elem with
    | some elem =>
      rw [elementsSize, serializeElements, List.length_append, each elem List.mem_cons_self, others]
    | none =>
      have header : makeNull.serializeFlat.length = 5 := rfl
      rw [elementsSize, serializeElements, List.length_append, header, others]

theorem serializedSize_eq : ∀ msg : Message, msg.serializedSize = msg.serialize.length
  | .monostate type => by
    rw [serializedSize, serialize, sizeFlat_eq] <;> simp
  | .string type str => by
    rw [serializedSize, serialize, sizeFlat_eq] <;> simp
  | .int64 type val => by
    rw [serializedSize, serialize, sizeFlat_eq] <;> simp
  | .array type elems => by
    have inner := elementsSize_eq fun elem (_ : some elem ∈ elems) => serializedSize_eq elem
    cases type with
    | array => rw [serializedSize, serialize, length_frame, inner]
    | _ => rw [serializedSize, serialize, sizeFlat_eq] <;> simp
termination_by msg => sizeOf msg
decreasing_by
  have smaller := List.sizeOf_lt_of_mem ‹some elem ∈ elems›
  simp only [Option.some.sizeOf_spec] at smaller
  simp only [array.sizeOf_spec]
  omega

end Message

open Message

theorem serializeMessages_append (front back : List (Option Message)) :
    serializeMessages (front ++ back) = serializeMessages front ++ serializeMessages back := by
  simp [serializeMessages]

/-- What the first loop has added up is the length of what the second one writes for the same
messages, so it holds after each of them. -/
theorem totalSize_eq (messages : List (Option Message)) :
    totalSize messages = (serializeMessages messages).length := by
  induction messages using List.reverseRecOn with
  | nil => rfl
  | append_singleton front msg ih =>
    rw [serializeMessages_append, List.length_append, ← ih, totalSize, List.foldl_append]
    cases msg with
    | none => simp [serializeMessages, totalSize]
    | some msg => simp [serializeMessages, totalSize, serializedSize_eq]

/-- **The announced size is the encoded size**, of a message and of a list of messages. -/
theorem sizes_exact :
    (∀ msg : Message, msg.serializedSize = msg.serialize.length) ∧
      ∀ messages : List (Option Message),
        serializeMessages messages = (messages.reduceOption.map serialize).flatten ∧
          (serializeMessages messages).length = totalSize messages := by
  refine ⟨serializedSize_eq, fun messages => ⟨?_, (totalSize_eq messages).symm⟩⟩
  induction messages with
  | nil => simp [serializeMessages]
  | cons msg rest ih =>
    cases msg with
    | none =>
      rw [List.reduceOption_cons_of_none, ← ih]
      simp [serializeMessages]
    | some msg =>
      rw [List.reduceOption_cons_of_some, List.map_cons, List.flatten_cons, ← ih]
      simp [serializeMessages]

end ScuffedRedis.Protocol
