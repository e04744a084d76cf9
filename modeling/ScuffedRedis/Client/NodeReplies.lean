import ScuffedRedis.Client.NodeEncoding
import ScuffedRedis.Data.HashTableLaws

/-!
# What the Node client makes of the server's replies

A call is followed from the bytes that it sends, through the server's parser and its command
handlers, to what the method returns. The decoder knows strings and NULL; of the other replies
only the values that a method returns anyway get through.
-/
namespace ScuffedRedis
namespace ScuffedRedisClient

open Foundation Protocol

/-! ### One call -/

/-- The message that the server takes from the bytes of a call, when it takes one. -/
def Call.request (call : Call) : Option Message :=
  match buildCommand call.args with
  | none => none
  | some sent =>
    let buffer := Parser.feed [] sent
    if Parser.hasMessage buffer then
      match Parser.parseMessage buffer with
      | (.message request, _) => some request
      | _ => none
    else none

/-- What a method returns when one event brings the whole reply. -/
def Call.answer (call : Call) (reply : Message) : Returned :=
  call.finish (parseResponse reply.serialize)

/-- What is returned is what the reply says. An error is said by no value that a method returns. -/
def Reported : Call → Message → Returned → Prop
  | .get _, reply, returned =>
    (reply.getType = .nullValue ∧ returned = .value none) ∨
      ∃ string, reply = Message.makeBulkString (Utf8.encode string) ∧
        returned = .value (some string)
  | .set _ _ _, reply, _ => reply.isError = false
  | .keys _, reply, returned =>
    ∃ keys : List String, returned = .list keys ∧
      reply = Message.makeArray
        (keys.map fun key => some (Message.makeBulkString (Utf8.encode key)))
  | _, reply, returned =>
    ∃ value, reply = Message.makeInteger value ∧ returned = .number value.toInt

/-- The argument as the server takes it, cut to the length that the client announces. -/
def heard (arg : String) : Bytes := (Utf8.encode arg).take (Utf8.utf16Length arg)

/-- The stores, and the requests that they get, for which the reply gets through. -/
def Survives (kv : KVStore) (request : Message) : Call → Prop
  | .get key => ∀ value, kv.store.get (heard key) = some value →
      value.length < 2 ^ 32 ∧ ∃ string, Utf8.encode string = value
  | .set _ _ _ => parseCommand request ≠ []
  | .del key | .exists' key => kv.store.get (heard key) = none
  | .keys pattern => kv.store.keys (heard pattern) = []
  | .dbsize => Int64.ofNat kv.store.size = 0

/-! ### The decoder on frames -/

theorem readUInt32LE_lengthBytes (len : UInt32) :
    ∃ b0 b1 b2 b3, lengthBytes len = [b0, b1, b2, b3] ∧ readUInt32LE b0 b1 b2 b3 = len.toNat := by
  refine ⟨_, _, _, _, rfl, ?_⟩
  have small := len.toNat_lt
  simp only [readUInt32LE, UInt32.toNat_toUInt8, UInt32.toNat_and, UInt32.toNat_shiftRight]
  simp [Nat.shiftRight_eq_div_pow, Nat.and_two_pow_sub_one_eq_mod _ 8]
  omega

theorem parseResponse_frame (type : MessageType) (len : UInt32) (data : Bytes) :
    parseResponse (frame type len data) =
      if type = .bulkString ∨ type = .simpleString then
        some (Utf8.decode (data.take len.toNat))
      else none := by
  obtain ⟨b0, b1, b2, b3, bytes, value⟩ := readUInt32LE_lengthBytes len
  -- The decoder slices from the fifth byte on, behind the header.
  have sliced : slice (type.toByte :: ([b0, b1, b2, b3] ++ data)) 5 (5 + len.toNat) =
      data.take len.toNat := by
    rw [slice, ← List.take_drop]
    rfl
  rw [frame, bytes]
  change (if type.toByte = 0x06 then none
    else if type.toByte = 0x04 ∨ type.toByte = 0x01 then
      some (Utf8.decode (slice (type.toByte :: ([b0, b1, b2, b3] ++ data)) 5
        (5 + readUInt32LE b0 b1 b2 b3)))
    else none) = _
  rw [value, sliced]
  cases type <;> rfl

/-- Replies of the other types are read as `null`. -/
theorem parseResponse_integer (value : Int64) :
    parseResponse (Message.makeInteger value).serialize = none :=
  parseResponse_frame .integer 8 (integerBytes value)

theorem parseResponse_array (elems : List (Option Message)) :
    parseResponse (Message.makeArray elems).serialize = none := by
  rw [Message.makeArray, Message.serialize, parseResponse_frame]
  rfl

theorem parseResponse_null : parseResponse Message.makeNull.serialize = none :=
  parseResponse_frame .nullValue 0 []

theorem parseResponse_bulkString (str : Bytes) :
    parseResponse (Message.makeBulkString str).serialize =
      some (Utf8.decode (str.take (str.length % 2 ^ 32))) := by
  have written : (Message.makeBulkString str).serialize =
      frame .bulkString (UInt32.ofNat str.length) str := rfl
  rw [written, parseResponse_frame]
  rfl

/-- The string that `get` returns is the stored value when that is short and UTF-8. -/
theorem encode_decode_take_iff (str : Bytes) :
    Utf8.encode (Utf8.decode (str.take (str.length % 2 ^ 32))) = str ↔
      str.length < 2 ^ 32 ∧ ∃ string, Utf8.encode string = str := by
  constructor
  · intro same
    refine ⟨?_, _, same⟩
    -- A longer value loses at least `2 ^ 32` bytes, and decoding makes up for only a few.
    have few : (Utf8.encode (Utf8.decode (str.take (str.length % 2 ^ 32)))).length ≤
        str.length % 2 ^ 32 + 12 := by
      apply Utf8.length_le_of_decode_take
      rw [same]
    rw [same] at few
    have split := Nat.div_add_mod str.length (2 ^ 32)
    omega
  · rintro ⟨short, string, rfl⟩
    rw [Nat.mod_eq_of_lt short, List.take_length, Utf8.decode_encode]

/-! ### What the server takes -/

/-- An argument under its announced length, whatever follows it. It is taken up to that length. -/
theorem takes_announcedFrame {arg : String} (fits : Utf8.utf16Length arg < 2 ^ 32) (rest : Bytes) :
    ∃ after, Takes (announcedFrame arg ++ rest) [Message.makeBulkString (heard arg)] after := by
  have announced : (UInt32.ofNat (Utf8.utf16Length arg)).toNat = Utf8.utf16Length arg :=
    UInt32.toNat_ofNat_of_lt' fits
  have sum : (5 + UInt32.ofNat (Utf8.utf16Length arg)).toNat ≤ 5 + Utf8.utf16Length arg := by
    rw [UInt32.toNat_add, announced]
    exact Nat.mod_le _ _
  have enough := (Utf8.utf16Length_le arg).1
  have length : (announcedFrame arg ++ rest).length =
      5 + (Utf8.encode arg).length + rest.length := by
    rw [List.length_append, announcedFrame, length_frame]
  have data : ((announcedFrame arg ++ rest).take (5 + Utf8.utf16Length arg)).drop 5 =
      heard arg := by
    rw [← List.take_drop, announcedFrame, drop_frame, List.take_append_of_le_length enough, heard]
  -- More bytes than announced are there, so the tests of the parser pass.
  have taken : Takes (announcedFrame arg ++ rest) [.string .bulkString _] _ :=
    .text .bulkString _ (readHeader_frame _ _ _ _) rfl (by omega)
      (by rw [announced]; omega) (.done _)
  rw [announced, data] at taken
  exact ⟨_, taken⟩

/-- A request is an array of as many messages as there are arguments. -/
theorem Call.request_spec {call : Call} {request : Message} (read : call.request = some request) :
    ∃ elems rest, request = Message.makeArray (elems.map some) ∧ elems.length = call.args.length ∧
      (∀ arg ∈ call.args, Utf8.utf16Length arg < 2 ^ 32) ∧
      Takes (call.args.flatMap announcedFrame) elems rest := by
  unfold Call.request at read
  split at read
  next => cases read
  next sent built =>
    obtain ⟨few, fits, rfl⟩ := buildCommand_eq_some.mp built
    simp only at read
    split at read
    · split at read
      next taken rest parsed =>
        cases read
        obtain ⟨elems, shape, counted, inner⟩ :=
          takes_arrayFrame_inv (Parser.takes_of_parseMessage parsed)
        -- The header announces as many elements as there are arguments.
        rw [UInt32.toNat_ofNat_of_lt' few] at counted
        exact ⟨elems, rest, shape, counted, fits, inner⟩
      next => cases read
    · cases read

/-- The name of a command is taken as it is. -/
theorem takes_name {name : String} (plain : ∀ c ∈ name.toList, c.toNat < 0x80)
    (short : Utf8.utf16Length name < 2 ^ 8) {tail rest : Bytes} {first : Message}
    {others : List Message} (takes : Takes (announcedFrame name ++ tail) (first :: others) rest) :
    first = Message.makeBulkString (Utf8.encode name) ∧ Takes tail others rest := by
  have length := (Utf8.utf16Length_le name).2.mpr plain
  obtain ⟨middle, head, later⟩ := takes.head
  have name' : Takes (announcedFrame name ++ tail)
      [.string .bulkString (Utf8.encode name)] tail := by
    rw [announcedFrame, length]
    exact takes_textFrame rfl (by omega) tail
  obtain ⟨rfl, rfl⟩ := takes_unique head name'
  exact ⟨rfl, later⟩

/-- The request of a method with one argument. -/
theorem parseCommand_one {call : Call} {name arg : String} {request : Message}
    (args : call.args = [name, arg]) (plain : ∀ c ∈ name.toList, c.toNat < 0x80)
    (short : Utf8.utf16Length name < 2 ^ 8) (read : call.request = some request) :
    parseCommand request = [Utf8.encode name, heard arg] := by
  obtain ⟨elems, rest, rfl, counted, fits, takes⟩ := Call.request_spec read
  rw [args] at counted fits takes
  match elems, counted with
  | [first, second], _ =>
    rw [List.flatMap_cons] at takes
    obtain ⟨rfl, later⟩ := takes_name plain short takes
    obtain ⟨after, single⟩ := takes_announcedFrame (fits arg (by simp)) []
    rw [List.flatMap_singleton, ← List.append_nil (announcedFrame arg)] at later
    obtain ⟨rfl, -⟩ := takes_unique later single
    rfl

theorem length_commandStrings {elems : List (Option Message)} {strs : List Bytes}
    (strings : commandStrings elems = some strs) : strs.length = elems.length := by
  induction elems generalizing strs with
  | nil =>
    cases strings
    rfl
  | cons elem elems ih =>
    cases elem with
    | none => cases strings
    | some elem =>
      rw [commandStrings] at strings
      split at strings
      · obtain ⟨others, later, rfl⟩ := Option.map_eq_some_iff.mp strings
        rw [List.length_cons, List.length_cons, ih later]
      · cases strings

/-- A `SET` that the server can read has its key and its value. -/
theorem parseCommand_set {call : Call} {args : List String} {request : Message}
    (named : call.args = "SET" :: args) (several : 2 ≤ args.length)
    (read : call.request = some request) (valid : parseCommand request ≠ []) :
    ∃ key value others, parseCommand request = text "SET" :: key :: value :: others := by
  obtain ⟨elems, rest, rfl, counted, fits, takes⟩ := Call.request_spec read
  rw [named, List.length_cons] at counted
  rw [named, List.flatMap_cons] at takes
  have command (elems : List (Option Message)) :
      parseCommand (Message.makeArray elems) = (commandStrings elems).getD [] := rfl
  rw [command] at valid ⊢
  cases found : commandStrings (elems.map some) with
  | none => simp [found] at valid
  | some strs =>
    -- As many strings as arguments, and the first of them is the name.
    have length := length_commandStrings found
    rw [List.length_map, counted] at length
    match elems, strs, length with
    | [], _, _ => exact absurd counted (by simp)
    | first :: others, name :: key :: value :: more, _ =>
      obtain ⟨rfl, -⟩ := takes_name (by simp) (by decide) takes
      rw [List.map_cons, commandStrings] at found
      obtain ⟨strs, -, same⟩ := Option.map_eq_some_iff.mp found
      obtain ⟨rfl, rfl⟩ := List.cons.inj same
      exact ⟨key, value, more, rfl⟩
    | _ :: _, [], length | _ :: _, [_], length | _ :: _, [_, _], length =>
      simp only [List.length_cons, List.length_nil] at length
      omega

/-! ### What the server answers -/

theorem executeCommand_named {kv : KVStore} {request : Message} {name : Bytes} {args : List Bytes}
    {handler : KVStore.Handler} (command : parseCommand request = name :: args)
    (known : KVStore.handlers.lookup (KVStore.toUpper name) = some handler) :
    kv.executeCommand request =
      handler { kv with commandsProcessed := kv.commandsProcessed + 1 } (name :: args) := by
  rw [KVStore.executeCommand, command]
  simp only [KVStore.executeRaw, known]

theorem reply_get {kv : KVStore} {key : String} {request : Message}
    (read : (Call.get key).request = some request) :
    (kv.executeCommand request).1 =
      ((kv.store.get (heard key)).map Message.makeBulkString).getD nilResponse := by
  have command := parseCommand_one rfl (by simp) (by decide) read
  have known : KVStore.handlers.lookup (KVStore.toUpper (Utf8.encode "GET")) =
      some KVStore.handleGet := rfl
  rw [executeCommand_named command known, KVStore.handleGet]
  cases kv.store.get (heard key) <;> rfl

theorem reply_keys {kv : KVStore} {pattern : String} {request : Message}
    (read : (Call.keys pattern).request = some request) :
    (kv.executeCommand request).1 = Message.makeArray
      ((kv.store.keys (heard pattern)).map fun key => some (Message.makeBulkString key)) := by
  have command := parseCommand_one rfl (by simp) (by decide) read
  have known : KVStore.handlers.lookup (KVStore.toUpper (Utf8.encode "KEYS")) =
      some KVStore.handleKeys := rfl
  rw [executeCommand_named command known, KVStore.handleKeys]

/-- How often a key is in the store. -/
def presence (kv : KVStore) (key : Bytes) : Int64 := if (kv.store.get key).isSome then 1 else 0

theorem reply_del {kv : KVStore} {key : String} {request : Message}
    (read : (Call.del key).request = some request) :
    (kv.executeCommand request).1 = Message.makeInteger (presence kv (heard key)) := by
  have command := parseCommand_one rfl (by simp) (by decide) read
  have known : KVStore.handlers.lookup (KVStore.toUpper (Utf8.encode "DEL")) =
      some KVStore.handleDel := rfl
  have found (table : HashTable) (key : Bytes) : (table.del key).1 = (table.get key).isSome := by
    rw [HashTable.get, HashTable.del, Option.isSome_map]
    split <;> simp_all
  rw [executeCommand_named command known, KVStore.handleDel]
  simp only [KVStore.deleteKeys, found, presence]
  split <;> rfl

theorem reply_exists {kv : KVStore} {key : String} {request : Message}
    (read : (Call.exists' key).request = some request) :
    (kv.executeCommand request).1 = Message.makeInteger (presence kv (heard key)) := by
  have command := parseCommand_one rfl (by simp) (by decide) read
  have known : KVStore.handlers.lookup (KVStore.toUpper (Utf8.encode "EXISTS")) =
      some KVStore.handleExists := rfl
  rw [executeCommand_named command known, KVStore.handleExists]
  simp only [KVStore.countKeys, HashTable.exists_eq_get, presence]
  split <;> rfl

theorem reply_dbsize {kv : KVStore} {request : Message}
    (read : Call.dbsize.request = some request) :
    (kv.executeCommand request).1 = Message.makeInteger (Int64.ofNat kv.store.size) := by
  have command : parseCommand request = [Utf8.encode "DBSIZE"] := by
    obtain ⟨elems, rest, rfl, counted, -, takes⟩ := Call.request_spec read
    match elems, counted with
    | [first], _ =>
      rw [Call.args, List.flatMap_cons] at takes
      obtain ⟨rfl, -⟩ := takes_name (by simp) (by decide) takes
      rfl
  have known : KVStore.handlers.lookup (KVStore.toUpper (Utf8.encode "DBSIZE")) =
      some KVStore.handleDbsize := rfl
  rw [executeCommand_named command known, KVStore.handleDbsize]

/-- A time to live stands behind the value. -/
theorem args_set (key value : String) (ttl : Option String) :
    ∃ options, (Call.set key value ttl).args = "SET" :: key :: value :: options ∧
      options.length ≤ 2 := by
  cases ttl with
  | none => exact ⟨[], rfl, by simp⟩
  | some ttl => exact ⟨["EX", ttl], rfl, by simp⟩

/-- The answer to `SET` is an error exactly when the server finds no command in the request. -/
theorem reply_set {kv : KVStore} {key value : String} {ttl : Option String} {request : Message}
    (read : (Call.set key value ttl).request = some request) :
    (kv.executeCommand request).1.isError = false ↔ parseCommand request ≠ [] := by
  constructor
  · intro answered nothing
    rw [KVStore.executeCommand, nothing] at answered
    cases answered
  · intro valid
    -- With a key and a value there, `handleSet` has no error to give.
    obtain ⟨options, named, -⟩ := args_set key value ttl
    obtain ⟨key', value', others, command⟩ := parseCommand_set named (by simp) read valid
    have known : KVStore.handlers.lookup (KVStore.toUpper (text "SET")) =
        some KVStore.handleSet := rfl
    rw [executeCommand_named command known, KVStore.handleSet]
    rfl

/-! ### What gets through -/

/-- Every integer is read as zero. -/
theorem reported_integer_iff (n : Int64) :
    (∃ value, Message.makeInteger n = Message.makeInteger value ∧
      Returned.number (parseIntOrZero (parseResponse (Message.makeInteger n).serialize)) =
        .number value.toInt) ↔ n = 0 := by
  rw [parseResponse_integer]
  constructor
  · rintro ⟨value, same, zero⟩
    cases same
    have read : (0 : Int) = n.toInt := Returned.number.inj zero
    exact Int64.toInt_inj.mp read.symm
  · rintro rfl
    exact ⟨0, rfl, rfl⟩

theorem presence_eq_zero_iff (kv : KVStore) (key : Bytes) :
    presence kv key = 0 ↔ kv.store.get key = none := by
  rw [presence]
  cases kv.store.get key <;> simp

/-- A value is read as the string that its octets encode, cut at the length field. -/
theorem reported_bulkString_iff (key : String) (value : Bytes) :
    Reported (.get key) (Message.makeBulkString value)
        ((Call.get key).answer (Message.makeBulkString value)) ↔
      value.length < 2 ^ 32 ∧ ∃ string, Utf8.encode string = value := by
  have answer : (Call.get key).answer (Message.makeBulkString value) =
      .value (some (Utf8.decode (value.take (value.length % 2 ^ 32)))) :=
    congrArg Returned.value (parseResponse_bulkString value)
  rw [answer, Reported, ← encode_decode_take_iff]
  constructor
  · rintro (⟨null, -⟩ | ⟨string, same, returned⟩)
    · cases null
    · -- The string that is returned stands for the value when it encodes to it.
      cases same
      rw [Option.some.inj (Returned.value.inj returned)]
  · intro same
    exact .inr ⟨_, by rw [same], rfl⟩

/-- An array is read as `null`, of which `keys` makes the empty list. -/
theorem reported_array_iff (pattern : String) (elems : List (Option Message)) :
    Reported (.keys pattern) (Message.makeArray elems)
        ((Call.keys pattern).answer (Message.makeArray elems)) ↔ elems = [] := by
  have answer : (Call.keys pattern).answer (Message.makeArray elems) = .list [] := by
    rw [Call.answer, parseResponse_array]
    rfl
  rw [answer, Reported]
  constructor
  · rintro ⟨keys, returned, same⟩
    cases returned
    simpa [Message.makeArray] using same
  · rintro rfl
    exact ⟨[], rfl, rfl⟩

/-- A call is reported as the server answered it exactly when the number is zero, the list empty,
the value short and UTF-8, or the `SET` one that the server can read. -/
theorem reported_iff (kv : KVStore) (call : Call) (request : Message)
    (read : call.request = some request) :
    Reported call (kv.executeCommand request).1 (call.answer (kv.executeCommand request).1) ↔
      Survives kv request call := by
  cases call with
  | get key =>
    rw [reply_get read, Survives]
    cases kv.store.get (heard key) with
    | none =>
      refine ⟨fun _ value stored => (by cases stored), fun _ => .inl ⟨rfl, ?_⟩⟩
      exact congrArg Returned.value parseResponse_null
    | some value =>
      rw [Option.map_some, Option.getD_some, reported_bulkString_iff]
      simp only [Option.some.injEq, forall_eq']
  | set key value ttl => exact reply_set read
  | del key =>
    rw [reply_del read]
    exact (reported_integer_iff _).trans (presence_eq_zero_iff kv _)
  | exists' key =>
    rw [reply_exists read]
    exact (reported_integer_iff _).trans (presence_eq_zero_iff kv _)
  | dbsize =>
    rw [reply_dbsize read]
    exact reported_integer_iff _
  | keys pattern =>
    rw [reply_keys read, Survives, reported_array_iff]
    exact List.map_eq_nil_iff

/-- The key is stored. -/
theorem reported_iff_stored :
    Reported (.get "a")
        ((KVStore.initial.executeRaw [text "SET", text "a", text "1"]).2.executeCommand
          (makeCommand [text "GET", text "a"])).1
        ((Call.get "a").answer
          ((KVStore.initial.executeRaw [text "SET", text "a", text "1"]).2.executeCommand
            (makeCommand [text "GET", text "a"])).1) ↔
      Survives (KVStore.initial.executeRaw [text "SET", text "a", text "1"]).2
        (makeCommand [text "GET", text "a"]) (.get "a") :=
  reported_iff (KVStore.initial.executeRaw [text "SET", text "a", text "1"]).2 (.get "a")
    (makeCommand [text "GET", text "a"]) rfl

/-- A key is deleted, and the client returns zero. -/
theorem deleted_not_reported : ¬ ∀ (kv : KVStore) (call : Call) (request : Message),
    call.request = some request →
      Reported call (kv.executeCommand request).1 (call.answer (kv.executeCommand request).1) := by
  intro always
  obtain ⟨value, same, returned⟩ := always
    (KVStore.initial.executeRaw [text "SET", text "a", text "1"]).2 (.del "a")
    (makeCommand [text "DEL", text "a"]) rfl
  have deleted : Message.makeInteger 1 = Message.makeInteger value := same
  have zero : Returned.number 0 = .number value.toInt := returned
  cases deleted
  exact absurd (Returned.number.inj zero) (by decide)

end ScuffedRedisClient
end ScuffedRedis
