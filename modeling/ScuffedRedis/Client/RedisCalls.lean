import ScuffedRedis.Client.RedisArrival
import ScuffedRedis.Protocol.Decodability
import ScuffedRedis.Server.Serving

/-!
# The calls of the C++ client against the C++ server

The convenience calls send one command each and read the response. Here the client is connected
to the server: what it sends is what the server reads, and what the server writes is what it
receives. While the commands and the replies get through, the calls are those of a finite map.
-/
namespace ScuffedRedis

open Foundation Protocol

namespace Protocol.Message

def isInteger (msg : Message) : Bool := decide (msg.getType = .integer)

def isNull (msg : Message) : Bool := decide (msg.getType = .nullValue)

end Protocol.Message

namespace RedisClient

/-! ### The convenience calls -/

/-- The response of a command, read. -/
def reading {α : Type} (read : Message → α) (executed : Option (Message × RedisClient)) :
    Option (α × RedisClient) := executed.map fun returned => (read returned.1, returned.2)

def set (redis : RedisClient) (key value : Bytes) (exchange : Exchange) :
    Option (Bool × RedisClient) :=
  reading (fun response => response.isString && response.asString == text "OK")
    (redis.execute [text "SET", key, value] exchange)

def get (redis : RedisClient) (key : Bytes) (exchange : Exchange) :
    Option (Option Bytes × RedisClient) :=
  reading (fun response => if response.isNull then none
      else if response.isString then some response.asString else none)
    (redis.execute [text "GET", key] exchange)

def del (redis : RedisClient) (key : Bytes) (exchange : Exchange) : Option (Bool × RedisClient) :=
  reading (fun response => response.isInteger && decide (response.asInteger > 0))
    (redis.execute [text "DEL", key] exchange)

def exists' (redis : RedisClient) (key : Bytes) (exchange : Exchange) :
    Option (Bool × RedisClient) :=
  reading (fun response => response.isInteger && decide (response.asInteger > 0))
    (redis.execute [text "EXISTS", key] exchange)

/-- The loop over the elements of the array, which skips those that are not strings. -/
def stringElements : List (Option Message) → List Bytes
  | [] => []
  | some elem :: rest =>
    if elem.isString then elem.asString :: stringElements rest else stringElements rest
  | none :: rest => stringElements rest

def keys (redis : RedisClient) (pattern : Bytes) (exchange : Exchange) :
    Option (List Bytes × RedisClient) :=
  reading (fun response =>
      if response.isArray then
        match response.asArray with
        | some arr => stringElements arr
        | none => []
      else [])
    (redis.execute [text "KEYS", pattern] exchange)

/-- `execute_string`. -/
def executeString (redis : RedisClient) (args : List Bytes) (exchange : Exchange) :
    Option (Option Bytes × RedisClient) :=
  reading (fun response => if response.isString then some response.asString else none)
    (redis.execute args exchange)

def ping (redis : RedisClient) (exchange : Exchange) : Option (Bool × RedisClient) :=
  reading (fun response => response.isString && response.asString == text "PONG")
    (redis.execute [text "PING"] exchange)

/-- A call with its arguments. -/
inductive Call where
  | set (key value : Bytes)
  | get (key : Bytes)
  | del (key : Bytes)
  | exists' (key : Bytes)
  | keys (pattern : Bytes)
  | ping
  | executeString (args : List Bytes)

inductive Result where
  | flag (flag : Bool)
  | value (value : Option Bytes)
  | names (names : List Bytes)

/-- The command that a call sends. -/
def Call.args : Call → List Bytes
  | .set key value => [text "SET", key, value]
  | .get key => [text "GET", key]
  | .del key => [text "DEL", key]
  | .exists' key => [text "EXISTS", key]
  | .keys pattern => [text "KEYS", pattern]
  | .ping => [text "PING"]
  | .executeString args => args

def call (redis : RedisClient) (exchange : Exchange) : Call → Option (Result × RedisClient)
  | .set key value =>
    (redis.set key value exchange).map fun returned => (.flag returned.1, returned.2)
  | .get key => (redis.get key exchange).map fun returned => (.value returned.1, returned.2)
  | .del key => (redis.del key exchange).map fun returned => (.flag returned.1, returned.2)
  | .exists' key =>
    (redis.exists' key exchange).map fun returned => (.flag returned.1, returned.2)
  | .keys pattern =>
    (redis.keys pattern exchange).map fun returned => (.names returned.1, returned.2)
  | .ping => (redis.ping exchange).map fun returned => (.flag returned.1, returned.2)
  | .executeString args =>
    (redis.executeString args exchange).map fun returned => (.value returned.1, returned.2)

/-! ### The client and the server together -/

/-- A client and the handler and connection of the server that serves it. -/
structure Link where
  redis : RedisClient
  server : CommandHandler × ClientConnection

/-- The client has connected, and the server has accepted it. -/
def Link.fresh (sends : List SendResult) : Link where
  redis := ⟨{ TcpClient.initial with connected := true }, []⟩
  server := (⟨[], .initial⟩, .accept sends)

/-- A call during which the network does its part: the command gets to the server in one read,
and the reply, that is what the server writes, gets back to the client in time. -/
structure LinkStep (link : Link) (call : Call) (result : Result) (next : Link) : Prop where
  nonempty : call.args ≠ []
  served : round link.server (commandFrame call.args) = some next.server
  fits : (commandFrame call.args).length ≤ bufferSize
  exchanged : ∃ (reply : Message) (receives : List Receive),
    next.server.2.sent = link.server.2.sent ++ reply.serialize ∧ reply.Encodable ∧
      Arrives reply 0 receives ∧
      link.redis.call ⟨true, reply, receives⟩ call = some (result, next.redis)

/-- What the calls of a finite map return. The order of the keys is left open. -/
inductive CallSpec (m : KeyMap) : Call → Result → KeyMap → Prop
  | set (key value) : CallSpec m (.set key value) (.flag true) (m.insert key value)
  | get (key) : CallSpec m (.get key) (.value (m.lookup key)) m
  | del (key) : CallSpec m (.del key) (.flag (decide (key ∈ m))) (m.erase key)
  | exists' (key) : CallSpec m (.exists' key) (.flag (decide (key ∈ m))) m
  | keys (pattern) {names : List Bytes} : names.Nodup →
      (∀ key, key ∈ names ↔ key ∈ m ∧ matchesPattern key pattern) →
      CallSpec m (.keys pattern) (.names names) m
  | ping : CallSpec m .ping (.flag true) m
  | executeString {args answer next} : KVStore.KvSpec m args answer next →
      CallSpec m (.executeString args)
        (.value (if answer.isString then some answer.asString else none)) next

/-! ### What the responses say -/

/-- How a call reads the response. -/
def Call.read : Call → Message → Result
  | .set _ _, response => .flag (response.isString && response.asString == text "OK")
  | .get _, response =>
    .value (if response.isNull then none
      else if response.isString then some response.asString else none)
  | .del _, response | .exists' _, response =>
    .flag (response.isInteger && decide (response.asInteger > 0))
  | .keys _, response =>
    .names (if response.isArray then
        match response.asArray with
        | some arr => stringElements arr
        | none => []
      else [])
  | .ping, response => .flag (response.isString && response.asString == text "PONG")
  | .executeString _, response =>
    .value (if response.isString then some response.asString else none)

/-- Every call is a command and a way to read its response. -/
theorem call_eq (redis : RedisClient) (exchange : Exchange) (call : Call) :
    redis.call exchange call = reading call.read (redis.execute call.args exchange) := by
  cases call with
  | set | get | del | exists' | keys | ping | executeString => exact Option.map_map _ _ _

theorem stringElements_bulkStrings (names : List Bytes) :
    stringElements (names.map fun name => some (Message.makeBulkString name)) = names := by
  induction names with
  | nil => rfl
  | cons name names ih =>
    rw [List.map_cons, stringElements, ih]
    rfl

/-! ### What the server answers -/

theorem getType_of_serialize {msg msg' : Message} (same : msg.serialize = msg'.serialize) :
    msg.getType = msg'.getType := by
  have heads := serialize_head msg
  rw [same, serialize_head, Option.some.injEq] at heads
  have types := congrArg MessageType.ofByte heads
  rw [MessageType.ofByte_toByte, MessageType.ofByte_toByte, Option.some.injEq] at types
  exact types.symm

/-- A reply that arrives is short: an array as it has to come with its header, any other message
as it announces its length. -/
theorem length_reply {reply : Message} {receives : List Receive} (built : reply.Encodable)
    (arrives : Arrives reply 0 receives) :
    reply.serialize.length < 2 ^ 32 ∧
      (reply.isArray = true → reply.serialize.length ≤ 4 + bufferSize) := by
  have array (isArray : reply.isArray = true) :=
    arrives_array_length isArray (Nat.zero_lt_succ 4) arrives
  refine ⟨?_, array⟩
  obtain ⟨type, length, data, framed, isArray, fits⟩ := frame_of_encodable built
  by_cases other : type = .array
  · have := array (isArray.mp other)
    have : bufferSize = 4096 := rfl
    omega
  · obtain ⟨short, announced⟩ := fits other
    rw [framed, length_frame]
    omega

/-- The answers of the server are as short as the replies in which they arrive. -/
theorem encodable_answer {m next : KeyMap} {args : List Bytes} {answer reply : Message}
    {receives : List Receive} (answered : KVStore.KvSpec m args answer next)
    (built : reply.Encodable) (arrives : Arrives reply 0 receives)
    (same : answer.serialize = reply.serialize) : answer.Encodable := by
  obtain ⟨short, array⟩ := length_reply built arrives
  rw [← same] at short array
  have textFits {str : Bytes} {type : MessageType}
      (length : (frame type (UInt32.ofNat str.length) str).length < 2 ^ 32) :
      str.length ≤ 2 ^ 32 - 6 := by
    rw [length_frame] at length
    omega
  cases answered with
  | refused => exact .error _ (textFits short)
  | getBound | pingWith | echo | info => exact .bulkString _ (textFits short)
  | set | flushdb => exact .simpleString _ (by decide)
  | ping => exact .simpleString _ (by decide)
  | getUnbound => exact .null
  | del | exists' | dbsize => exact .integer _
  | keys =>
    -- The names are those of a command.
    have isArray : reply.isArray = true := by
      rw [Message.isArray, ← getType_of_serialize same]
      rfl
    exact encodable_makeCommand ((array isArray).trans (by decide))

/-- What the client reads is what the server answered. -/
theorem readBack_answer {m next : KeyMap} {args : List Bytes} {answer : Message}
    (answered : KVStore.KvSpec m args answer next) : answer.readBack = answer := by
  cases answered with
  | keys => exact readBack_makeCommand _
  | refused | getBound | pingWith | echo | info | set | flushdb | ping | getUnbound | del
  | exists' | dbsize => rfl

/-- Each call reads the answer to its command. -/
theorem callSpec_of_answer {m next : KeyMap} {call : Call} {answer : Message}
    (answered : KVStore.KvSpec m call.args answer next) :
    CallSpec m call (call.read answer) next := by
  cases call with
  | set key value =>
    obtain ⟨rfl, rfl⟩ := KVStore.kvSpec_set answered
    exact .set key value
  | get key =>
    obtain ⟨rfl, rfl⟩ := KVStore.kvSpec_get answered
    have found : (Call.get key).read
        (((next.lookup key).map Message.makeBulkString).getD nilResponse) =
          .value (next.lookup key) := by
      cases next.lookup key <;> rfl
    rw [found]
    exact .get key
  | del key =>
    obtain ⟨rfl, rfl⟩ := KVStore.kvSpec_del answered
    have flag : (Call.del key).read (Message.makeInteger (if key ∈ m then 1 else 0)) =
        .flag (decide (key ∈ m)) := by
      by_cases present : key ∈ m <;> simp only [present, if_true, if_false] <;> rfl
    rw [flag]
    exact .del key
  | exists' key =>
    obtain ⟨rfl, rfl⟩ := KVStore.kvSpec_exists answered
    have flag : (Call.exists' key).read (Message.makeInteger (if key ∈ next then 1 else 0)) =
        .flag (decide (key ∈ next)) := by
      by_cases present : key ∈ next <;> simp only [present, if_true, if_false] <;> rfl
    rw [flag]
    exact .exists' key
  | keys pattern =>
    obtain ⟨⟨found, nodup, listed, rfl⟩, rfl⟩ := KVStore.kvSpec_keys answered
    have names : (Call.keys pattern).read
        (Message.makeArray (found.map fun key => some (Message.makeBulkString key))) =
          .names found := congrArg Result.names (stringElements_bulkStrings found)
    rw [names]
    exact .keys pattern nodup listed
  | ping =>
    obtain ⟨rfl, rfl⟩ := KVStore.kvSpec_ping answered
    exact .ping
  | executeString args => exact .executeString answered

/-! ### Runs -/

/-- What holds between two calls: nothing of an earlier reply is left, the server has answered
every command so far, and its table is the map. -/
structure Linked (link : Link) (m : KeyMap) (done : List (List Bytes)) : Prop
    extends UpToDate link.server m done where
  settled : Settled link.redis
  connected : link.redis.client.connected = true

theorem linked_fresh {sends : List SendResult} (noError : .error ∉ sends) :
    Linked (.fresh sends) ∅ [] where
  toUpToDate := upToDate_accept noError
  settled := ⟨rfl, rfl⟩
  connected := rfl

/-- If the answer can be sent and arrives, there is a call. -/
theorem exists_linkStep {link : Link} {call : Call} {m : KeyMap} {done : List (List Bytes)}
    (linked : Linked link m done) (nonempty : call.args ≠ [])
    (fits : (commandFrame call.args).length ≤ bufferSize) {receives : List Receive}
    (built : (ScuffedRedis.execute (storeAfter .initial done) call.args).1.Encodable)
    (arrives : Arrives (ScuffedRedis.execute (storeAfter .initial done) call.args).1 0 receives) :
    ∃ result next, LinkStep link call result next := by
  obtain ⟨server, m', ran, wrote, -⟩ := linked.serve nonempty fits
  obtain ⟨redis, executed, -⟩ := @execute_arrives link.redis call.args
    ⟨true, _, receives⟩ linked.settled built linked.connected nonempty rfl arrives
  have called := call_eq link.redis
    ⟨true, (ScuffedRedis.execute (storeAfter .initial done) call.args).1, receives⟩ call
  rw [executed, reading, Option.map_some] at called
  exact ⟨_, ⟨redis, server⟩, nonempty, ran, fits, _, receives, wrote, built, arrives, called⟩

/-- A command reaches the server in one read, and what the server writes arrives in time as the
reply. Then the client returns the answer. -/
theorem Linked.exchange {link : Link} {args : List Bytes} {m : KeyMap} {done : List (List Bytes)}
    {server : CommandHandler × ClientConnection} {reply : Message} {receives : List Receive}
    (linked : Linked link m done) (nonempty : args ≠ [])
    (fits : (commandFrame args).length ≤ bufferSize)
    (served : round link.server (commandFrame args) = some server)
    (wrote : server.2.sent = link.server.2.sent ++ reply.serialize) (built : reply.Encodable)
    (arrives : Arrives reply 0 receives) :
    ∃ redis m', link.redis.execute args ⟨true, reply, receives⟩ =
        some ((ScuffedRedis.execute (storeAfter .initial done) args).1, redis) ∧
      KVStore.KvSpec m args (ScuffedRedis.execute (storeAfter .initial done) args).1 m' ∧
      (ScuffedRedis.execute (storeAfter .initial done) args).1.Encodable ∧
      Linked ⟨redis, server⟩ m' (done ++ [args]) := by
  obtain ⟨server', m', ran, sent, answered, upToDate⟩ := linked.serve nonempty fits
  rw [served, Option.some.injEq] at ran
  subst ran
  have same : (ScuffedRedis.execute (storeAfter .initial done) args).1.serialize =
      reply.serialize := by
    rwa [sent, List.append_cancel_left_eq] at wrote
  have answerable := encodable_answer answered built arrives same
  have returned : reply.readBack = (ScuffedRedis.execute (storeAfter .initial done) args).1 := by
    rw [← readBack_answer answered]
    exact readBack_of_serialize built answerable same.symm
  obtain ⟨last, executed, settled, connected⟩ := @execute_arrives link.redis args
    ⟨true, reply, receives⟩ linked.settled built linked.connected nonempty rfl arrives
  rw [returned] at executed
  exact ⟨last, m', executed, answered, answerable, upToDate, settled, connected⟩

/-- One call is one step of the finite map. -/
theorem linkStep_spec {link next : Link} {call : Call} {result : Result} {m : KeyMap}
    {done : List (List Bytes)} (linked : Linked link m done)
    (step : LinkStep link call result next) :
    ∃ m', CallSpec m call result m' ∧ Linked next m' (done ++ [call.args]) := by
  obtain ⟨reply, receives, wrote, built, arrives, called⟩ := step.exchanged
  obtain ⟨redis, m', executed, answered, -, linked'⟩ :=
    linked.exchange step.nonempty step.fits step.served wrote built arrives
  rw [call_eq, executed, reading, Option.map_some, Option.some.injEq, Prod.mk.injEq] at called
  obtain ⟨rfl, rfl⟩ := called
  exact ⟨m', callSpec_of_answer answered, linked'⟩

/-- **From end to end.** In every run of calls of one client of the server in which the network
does its part, the calls return what a finite map returns that starts empty, and the nodes of the
server's table end as the bindings of that map. -/
theorem calls_refine_map (sends : List SendResult) (calls : List Call) (results : List Result)
    (last : Link) (noError : .error ∉ sends)
    (run : SpecRun LinkStep (.fresh sends) calls results last) :
    ∃ m, SpecRun CallSpec ∅ calls results m ∧
      Represents Node.key Node.value last.server.1.store.store.nodes m := by
  have simulates : ∀ link m call result next, (∃ done, Linked link m done) →
      LinkStep link call result next → ∃ m', CallSpec m call result m' ∧
        ∃ done, Linked next m' done := by
    rintro link m call result next ⟨done, linked⟩ step
    obtain ⟨m', answered, linked'⟩ := linkStep_spec linked step
    exact ⟨m', answered, done ++ [call.args], linked'⟩
  obtain ⟨m, answered, done, linked⟩ :=
    run.simulated (fun link m => ∃ done, Linked link m done) simulates ⟨[], linked_fresh noError⟩
  refine ⟨m, answered, ?_⟩
  rw [linked.inStep.handler]
  exact linked.refines.represents

/-- A PING whose answer comes in two reads. -/
theorem calls_refine_map_ping : ∃ result last,
    SpecRun LinkStep (.fresh []) [.ping] [result] last ∧
      ∃ m, SpecRun CallSpec ∅ [.ping] [result] m ∧
        Represents Node.key Node.value last.server.1.store.store.nodes m := by
  have built : (ScuffedRedis.execute .initial [text "PING"]).1.Encodable :=
    .simpleString _ (by decide)
  have length : (ScuffedRedis.execute .initial [text "PING"]).1.serialize.length = 9 := by decide
  have arrives :
      Arrives (ScuffedRedis.execute .initial [text "PING"]).1 0 [.data 3, .data 4096] := by
    refine .inr ⟨fun _ => by decide, 3, by decide, rfl, ?_⟩
    refine .inr ⟨fun _ => by rw [length]; decide, 4096, by decide, rfl, ?_⟩
    rw [length]
    exact length.symm
  have linked : Linked (.fresh []) ∅ [] := linked_fresh List.not_mem_nil
  have nonempty : Call.ping.args ≠ [] := List.cons_ne_nil _ _
  obtain ⟨result, last, step⟩ := exists_linkStep linked nonempty (by decide) built arrives
  have run : SpecRun LinkStep (.fresh []) [.ping] [result] last := .cons step (.nil last)
  exact ⟨result, last, run, calls_refine_map [] [.ping] [result] last List.not_mem_nil run⟩

end RedisClient
end ScuffedRedis
