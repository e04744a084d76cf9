import ScuffedRedis.Client.NodeReplies
import ScuffedRedis.Server.Serving

/-!
# The Node client against the C++ server

What the client writes is what the server reads, and what the server writes comes back in a `data`
event. When the methods of `ScuffedRedisClient` are awaited one after another, and their commands
are short and ASCII, what it sets and gets is a map. It does not know integers and arrays, so every
number is zero for it and every list empty.
-/
namespace ScuffedRedis
namespace ScuffedRedisClient

open Foundation Protocol KVStore

/-! ### The methods -/

inductive Method where
  | call (method : Call)
  | ping
  | flushdb
  | info

namespace Method

def args : Method → List String
  | .call method => method.args
  | .ping => ["PING"]
  | .flushdb => ["FLUSHDB"]
  | .info => ["INFO"]

/-- `result || other`. -/
def orElse (result : Option String) (other : String) : String := (result.filter (· ≠ "")).getD other

/-- What a method makes of the result of `sendCommand`. -/
def finish (result : Option String) : Method → Returned
  | .call method => method.finish result
  | .ping => .value (some (orElse result "PONG"))
  | .flushdb => .nothing
  | .info => .value (some (orElse result ""))

end Method

/-! ### The client and the server together -/

/-- A connected client, and the handler and the connection of the server that serves it. -/
structure NodeLink where
  client : ScuffedRedisClient
  server : CommandHandler × ClientConnection

namespace NodeLink

def fresh (sends : List SendResult) : NodeLink where
  client := initial
  server := (⟨[], .initial⟩, .accept sends)

/-- The server reads a chunk. If it writes anything, one event brings that to the client. A server
that gives the connection up, or does not come back from the handler, says nothing more. -/
def receive (link : NodeLink) (chunk : Bytes) : NodeLink :=
  match round link.server chunk with
  | none => { link with server := (link.server.1, link.server.2.close) }
  | some server =>
    match server.2.sent.drop link.server.2.sent.length with
    | [] => { link with server := server }
    | byte :: data => { client := link.client.onData (byte :: data), server := server }

/-- What a `recv` of 4096 bytes after another takes of these bytes. -/
def reads (bytes : Bytes) : List Bytes :=
  if bytes = [] then [] else bytes.take 4096 :: reads (bytes.drop 4096)
termination_by bytes.length
decreasing_by
  have := List.length_pos_iff.mpr ‹bytes ≠ []›
  rw [List.length_drop]
  omega

/-- The client sends a command, and all its bytes get to the server before those of the next. -/
def send (link : NodeLink) (args : List String) : NodeLink :=
  match buildCommand args with
  | none => link
  | some cmd => (reads cmd).foldl receive { link with client := link.client.sendCommand args }

end NodeLink

def Ascii (string : String) : Prop := ∀ c ∈ string.toList, c.toNat < 0x80

/-- The arguments of a command that the two encoders agree on and that the server gets in one
read. -/
structure Plain (args : List String) : Prop where
  ascii : ∀ arg ∈ args, Ascii arg
  fits : (commandFrame (args.map Utf8.encode)).length ≤ 4096

/-- A method whose promise is resolved when its command has got to the server. -/
structure NodeStep (link : NodeLink) (method : Method) (returned : Returned) (next : NodeLink) :
    Prop where
  plain : Plain method.args
  sent : next = link.send method.args
  resolved : ∃ event result, returned = method.finish result ∧
    ⟨link.client.written.length, event, result⟩ ∈ next.client.resolved

/-- What the methods return for what has been set. The report of INFO is left open. -/
inductive NodeSpec (m : String → Option String) :
    Method → Returned → (String → Option String) → Prop
  | get (key) : NodeSpec m (.call (.get key)) (.value (m key)) m
  | set (key value ttl) :
      NodeSpec m (.call (.set key value ttl)) .nothing (Function.update m key (some value))
  | del (key) : NodeSpec m (.call (.del key)) (.number 0) (Function.update m key none)
  | exists' (key) : NodeSpec m (.call (.exists' key)) (.number 0) m
  | keys (pattern) : NodeSpec m (.call (.keys pattern)) (.list []) m
  | dbsize : NodeSpec m (.call .dbsize) (.number 0) m
  | ping : NodeSpec m .ping (.value (some "PONG")) m
  | flushdb : NodeSpec m .flushdb .nothing fun _ => none
  | info (report) : NodeSpec m .info (.value (some report)) m

/-! ### One command -/

theorem NodeLink.reads_short {bytes : Bytes} (nonempty : bytes ≠ []) (short : bytes.length ≤ 4096) :
    reads bytes = [bytes] := by
  rw [reads, if_neg nonempty, List.take_of_length_le short, List.drop_of_length_le short, reads,
    if_pos rfl]

/-- What has been resolved stays so. -/
theorem NodeLink.resolved_send {link : NodeLink} {args : List String} {resolution : Resolution}
    (listed : resolution ∈ link.client.resolved) :
    resolution ∈ (link.send args).client.resolved := by
  -- The induction is on the reads of the server.
  have receives : ∀ (chunks : List Bytes) (link : NodeLink),
      resolution ∈ link.client.resolved →
        resolution ∈ (chunks.foldl NodeLink.receive link).client.resolved := by
    intro chunks
    induction chunks with
    | nil => exact fun _ listed => listed
    | cons chunk chunks ih =>
      intro link listed
      refine ih _ ?_
      rw [NodeLink.receive]
      split
      · exact listed
      · split
        · exact listed
        · exact List.mem_append_left _ listed
  rw [NodeLink.send]
  cases built : buildCommand args with
  | none => exact listed
  | some cmd =>
    refine receives _ _ ?_
    rw [sendCommand, built]
    exact listed

/-- Between two calls every command has been answered. -/
structure Idle (client : ScuffedRedisClient) : Prop where
  listeners : client.listeners = []
  earlier : ∀ resolution ∈ client.resolved, resolution.command < client.written.length

theorem idle_initial : Idle initial := ⟨rfl, List.forall_mem_nil _⟩

/-- A command is resolved by the event that follows it, and the client is idle again. -/
theorem Idle.exchange {client : ScuffedRedisClient} (idle : Idle client) {args : List String}
    {cmd : Bytes} (built : buildCommand args = some cmd) (data : Bytes) :
    Idle ((client.sendCommand args).onData data) ∧ ∀ event result,
      ⟨client.written.length, event, result⟩ ∈ ((client.sendCommand args).onData data).resolved ↔
        event = client.replies.length ∧ result = parseResponse data := by
  have sent : client.sendCommand args =
      { client with
        written := client.written ++ [cmd]
        listeners := [client.written.length] } := by
    rw [sendCommand, built, idle.listeners]
    rfl
  rw [sent]
  refine ⟨⟨rfl, ?_⟩, fun event result => ?_⟩
  · intro resolution listed
    rw [onData, List.mem_append] at listed
    simp only [onData, List.length_append, List.length_singleton]
    rcases listed with before | now
    · exact Nat.lt_succ_of_lt (idle.earlier _ before)
    · rw [List.map_singleton, List.mem_singleton] at now
      rw [now]
      exact Nat.lt_succ_self _
  · rw [onData, List.mem_append, List.map_singleton, List.mem_singleton]
    constructor
    · rintro (before | now)
      · exact absurd (idle.earlier _ before) (lt_irrefl _)
      · cases now
        exact ⟨rfl, rfl⟩
    · rintro ⟨rfl, rfl⟩
      exact .inr rfl

/-- An argument is shorter than the command. -/
theorem length_le_commandFrame {args : List Bytes} {arg : Bytes} (listed : arg ∈ args) :
    5 + arg.length ≤ (commandFrame args).length := by
  have part : 5 + arg.length ≤ (args.map fun arg => 5 + arg.length).sum :=
    List.single_le_sum (by simp) _ (List.mem_map_of_mem listed)
  rw [commandFrame_eq, length_frame, length_argumentFrames_eq]
  omega

theorem Plain.short {args : List String} (plain : Plain args) {arg : String} (listed : arg ∈ args) :
    (Utf8.encode arg).length < 4096 := by
  have within := length_le_commandFrame (List.mem_map_of_mem (f := Utf8.encode) listed)
  have fits := plain.fits
  omega

/-- The two encoders agree on plain arguments. -/
theorem Plain.built {args : List String} (plain : Plain args) :
    buildCommand args = some (commandFrame (args.map Utf8.encode)) := by
  -- An ASCII string has as many octets as code units.
  have lengths : ∀ arg ∈ args, Utf8.utf16Length arg = (Utf8.encode arg).length := fun arg listed =>
    (Utf8.utf16Length_le arg).2.mpr (plain.ascii arg listed)
  have bodies := (announcedFrames_eq_iff args).mpr fun arg listed => by rw [lengths arg listed]
  refine buildCommand_eq_some.mpr ⟨?_, fun arg listed => ?_, ?_⟩
  · have few := (length_argumentFrames (args.map Utf8.encode)).1
    have fits := plain.fits
    rw [commandFrame_eq, length_frame] at fits
    rw [List.length_map] at few
    omega
  · have short := plain.short listed
    rw [lengths arg listed]
    omega
  · rw [bodies, ← commandFrame_encode]
    rfl

/-! ### The answers -/

theorem encode_injective : Function.Injective Utf8.encode := by
  intro string string' same
  rw [← Utf8.decode_encode string, same, Utf8.decode_encode]

/-- The table has the strings of the map under their octets. They are short enough for a reply. -/
structure Mirrors (table : KeyMap) (m : String → Option String) : Prop where
  lookup : ∀ key, table.lookup (Utf8.encode key) = (m key).map Utf8.encode
  short : ∀ key value, m key = some value → (Utf8.encode value).length < 2 ^ 32

theorem mirrors_empty : Mirrors ∅ fun _ => none where
  lookup _ := rfl
  short _ _ bound := by cases bound

variable {table : KeyMap} {m : String → Option String}

theorem Mirrors.insert (mirrors : Mirrors table m) (key : String) {value : String}
    (short : (Utf8.encode value).length < 2 ^ 32) :
    Mirrors (table.insert (Utf8.encode key) (Utf8.encode value))
      (Function.update m key (some value)) where
  lookup other := by
    by_cases same : other = key
    · rw [same, Finmap.lookup_insert, Function.update_self, Option.map_some]
    · rw [Finmap.lookup_insert_of_ne _ (encode_injective.ne same), Function.update_of_ne same]
      exact mirrors.lookup other
  short other stored bound := by
    by_cases same : other = key
    · rw [same, Function.update_self, Option.some.injEq] at bound
      exact bound ▸ short
    · rw [Function.update_of_ne same] at bound
      exact mirrors.short other stored bound

theorem Mirrors.erase (mirrors : Mirrors table m) (key : String) :
    Mirrors (table.erase (Utf8.encode key)) (Function.update m key none) where
  lookup other := by
    by_cases same : other = key
    · rw [same, Finmap.lookup_erase, Function.update_self, Option.map_none]
    · rw [Finmap.lookup_erase_ne (encode_injective.ne same), Function.update_of_ne same]
      exact mirrors.lookup other
  short other stored bound := by
    by_cases same : other = key
    · rw [same, Function.update_self] at bound
      cases bound
    · rw [Function.update_of_ne same] at bound
      exact mirrors.short other stored bound

/-- A value is read as the string that was set. -/
theorem Mirrors.get (mirrors : Mirrors table m) (key : String) :
    parseResponse (((table.lookup (Utf8.encode key)).map Message.makeBulkString).getD
      nilResponse).serialize = m key := by
  rw [mirrors.lookup]
  cases bound : m key with
  | none => exact parseResponse_null
  | some value =>
    change parseResponse (Message.makeBulkString (Utf8.encode value)).serialize = some value
    rw [parseResponse_bulkString, Nat.mod_eq_of_lt (mirrors.short key value bound),
      List.take_length, Utf8.decode_encode]

theorem finish_integer {method : Call} (value : Int64)
    (counts : ∀ result, method.finish result = .number (parseIntOrZero result)) :
    method.finish (parseResponse (Message.makeInteger value).serialize) = .number 0 := by
  rw [parseResponse_integer, counts]
  rfl

/-- What a method makes of the answer to its command. -/
theorem nodeSpec_of_answer {next : KeyMap} {method : Method} {answer : Message}
    (mirrors : Mirrors table m) (short : ∀ arg ∈ method.args, (Utf8.encode arg).length < 2 ^ 32)
    (answered : KvSpec table (method.args.map Utf8.encode) answer next) :
    ∃ m', NodeSpec m method (method.finish (parseResponse answer.serialize)) m' ∧
      Mirrors next m' := by
  cases method with
  | call method =>
    cases method with
    | get key =>
      obtain ⟨rfl, rfl⟩ := kvSpec_get answered
      refine ⟨m, ?_, mirrors⟩
      rw [mirrors.get]
      exact .get key
    | set key value ttl =>
      obtain ⟨options, named, -⟩ := args_set key value ttl
      rw [Method.args, named] at answered short
      obtain ⟨-, rfl⟩ := kvSpec_set answered
      exact ⟨_, .set key value ttl, mirrors.insert key (short value (by simp))⟩
    | del key =>
      obtain ⟨rfl, rfl⟩ := kvSpec_del answered
      refine ⟨_, ?_, mirrors.erase key⟩
      rw [Method.finish, finish_integer _ fun _ => rfl]
      exact .del key
    | exists' key =>
      obtain ⟨rfl, rfl⟩ := kvSpec_exists answered
      refine ⟨m, ?_, mirrors⟩
      rw [Method.finish, finish_integer _ fun _ => rfl]
      exact .exists' key
    | keys pattern =>
      obtain ⟨⟨found, -, -, rfl⟩, rfl⟩ := kvSpec_keys answered
      refine ⟨m, ?_, mirrors⟩
      rw [parseResponse_array]
      exact .keys pattern
    | dbsize =>
      obtain ⟨rfl, rfl⟩ := kvSpec_dbsize answered
      refine ⟨m, ?_, mirrors⟩
      rw [Method.finish, finish_integer _ fun _ => rfl]
      exact .dbsize
  | ping =>
    obtain ⟨rfl, rfl⟩ := kvSpec_ping answered
    exact ⟨m, .ping, mirrors⟩
  | flushdb =>
    obtain ⟨-, rfl⟩ := kvSpec_flushdb answered
    exact ⟨_, .flushdb, mirrors_empty⟩
  | info =>
    obtain ⟨-, rfl⟩ := kvSpec_info answered
    exact ⟨m, .info _, mirrors⟩

/-! ### Runs -/

/-- What holds between two calls: the client is idle, the server has answered every command, and
its table has the strings of the map. -/
structure Attached (link : NodeLink) (m : String → Option String) : Prop where
  idle : Idle link.client
  upToDate : ∃ table done, UpToDate link.server table done ∧ Mirrors table m

theorem attached_fresh {sends : List SendResult} (noError : .error ∉ sends) :
    Attached (.fresh sends) fun _ => none :=
  ⟨idle_initial, ∅, [], upToDate_accept noError, mirrors_empty⟩

theorem Method.args_ne_nil (method : Method) : method.args ≠ [] := by
  cases method with
  | call method =>
    cases method with
    | set key value ttl =>
      obtain ⟨options, named, -⟩ := args_set key value ttl
      rw [Method.args, named]
      exact List.cons_ne_nil _ _
    | get | del | exists' | keys | dbsize => exact List.cons_ne_nil _ _
  | ping | flushdb | info => exact List.cons_ne_nil _ _

theorem serialize_ne_nil (msg : Message) : ∃ byte data, msg.serialize = byte :: data := by
  have head := serialize_head msg
  cases bytes : msg.serialize with
  | nil =>
    rw [bytes] at head
    cases head
  | cons byte data => exact ⟨byte, data, rfl⟩

/-- A plain command is answered in one event. -/
theorem NodeLink.send_plain {link : NodeLink} {table : KeyMap} {done : List (List Bytes)}
    {args : List String} (upToDate : UpToDate link.server table done) (plain : Plain args)
    (nonempty : args ≠ []) :
    ∃ server answer table', link.send args =
        ⟨(link.client.sendCommand args).onData answer.serialize, server⟩ ∧
      KvSpec table (args.map Utf8.encode) answer table' ∧
      UpToDate server table' (done ++ [args.map Utf8.encode]) := by
  have nonempty' : args.map Utf8.encode ≠ [] := by rwa [Ne, List.map_eq_nil_iff]
  obtain ⟨server, table', ran, sent, answered, upToDate'⟩ := upToDate.serve nonempty' plain.fits
  refine ⟨server, _, table', ?_, answered, upToDate'⟩
  have frame : commandFrame (args.map Utf8.encode) ≠ [] := by
    have := five_le_commandFrame (args.map Utf8.encode)
    exact List.ne_nil_of_length_pos (by omega)
  obtain ⟨byte, data, bytes⟩ :=
    serialize_ne_nil (execute (storeAfter .initial done) (args.map Utf8.encode)).1
  rw [send, plain.built]
  simp only [reads_short frame plain.fits, List.foldl_cons, List.foldl_nil, receive, ran, sent,
    List.drop_left, bytes]

/-- One call is one step of the map. -/
theorem Attached.step {link next : NodeLink} {method : Method} {returned : Returned}
    (attached : Attached link m) (step : NodeStep link method returned next) :
    ∃ m', NodeSpec m method returned m' ∧ Attached next m' := by
  obtain ⟨idle, table, done, upToDate, mirrors⟩ := attached
  obtain ⟨plain, rfl, event, result, rfl, resolved⟩ := step
  obtain ⟨server, answer, table', sent, answered, upToDate'⟩ :=
    NodeLink.send_plain upToDate plain method.args_ne_nil
  obtain ⟨idle', resolves⟩ := idle.exchange plain.built answer.serialize
  rw [sent] at resolved ⊢
  -- The event brings the answer.
  obtain ⟨-, rfl⟩ := (resolves event result).mp resolved
  have short : ∀ arg ∈ method.args, (Utf8.encode arg).length < 2 ^ 32 := fun arg listed =>
    (plain.short listed).trans (by decide)
  obtain ⟨m', spec, mirrors'⟩ := nodeSpec_of_answer mirrors short answered
  exact ⟨m', spec, idle', table', _, upToDate', mirrors'⟩

/-- The promise of a plain command is resolved. -/
theorem Attached.exists_step {link : NodeLink} (attached : Attached link m) (method : Method)
    (plain : Plain method.args) :
    ∃ returned, NodeStep link method returned (link.send method.args) := by
  obtain ⟨idle, table, done, upToDate, -⟩ := attached
  obtain ⟨server, answer, table', sent, -, -⟩ :=
    NodeLink.send_plain upToDate plain method.args_ne_nil
  have resolved := ((idle.exchange plain.built answer.serialize).2 _ _).mpr ⟨rfl, rfl⟩
  refine ⟨_, plain, rfl, link.client.replies.length, parseResponse answer.serialize, rfl, ?_⟩
  rw [sent]
  exact resolved

/-- **From end to end, for the Node client.** In every run of methods with plain arguments that are
awaited one after another, the methods return what a map of strings returns, except that no number
but zero and no list but the empty one is ever returned, and the table of the server ends with the
octets of that map. -/
theorem methods_refine_map (sends : List SendResult) (methods : List Method)
    (returned : List Returned) (last : NodeLink) (noError : .error ∉ sends)
    (run : SpecRun NodeStep (.fresh sends) methods returned last) :
    ∃ m, SpecRun NodeSpec (fun _ => none) methods returned m ∧
      ∀ key, last.server.1.store.store.get (Utf8.encode key) = (m key).map Utf8.encode := by
  have simulates : ∀ link m method returned next, Attached link m →
      NodeStep link method returned next →
        ∃ m', NodeSpec m method returned m' ∧ Attached next m' :=
    fun _ _ _ _ _ attached step => attached.step step
  obtain ⟨m, answered, -, table, done, upToDate, mirrors⟩ :=
    run.simulated Attached simulates (attached_fresh noError)
  refine ⟨m, answered, fun key => ?_⟩
  rw [upToDate.inStep.handler, ← mirrors.lookup]
  exact HashTable.get_eq upToDate.refines _

/-- A key is set, deleted and got. -/
theorem methods_refine_map_deleted : ∃ returned last,
    SpecRun NodeStep (.fresh []) [.call (.set "a" "1" none), .call (.del "a"), .call (.get "a")]
        returned last ∧
      ∃ m, SpecRun NodeSpec (fun _ => none)
          [.call (.set "a" "1" none), .call (.del "a"), .call (.get "a")] returned m ∧
        ∀ key, last.server.1.store.store.get (Utf8.encode key) = (m key).map Utf8.encode := by
  have start : Attached (.fresh []) fun _ => none := attached_fresh List.not_mem_nil
  obtain ⟨_, set⟩ := start.exists_step (.call (.set "a" "1" none))
    ⟨by simp [Method.args, Call.args, Ascii], by decide⟩
  obtain ⟨_, -, attached⟩ := start.step set
  obtain ⟨_, del⟩ := attached.exists_step (.call (.del "a"))
    ⟨by simp [Method.args, Call.args, Ascii], by decide⟩
  obtain ⟨_, -, attached'⟩ := attached.step del
  obtain ⟨_, get⟩ := attached'.exists_step (.call (.get "a"))
    ⟨by simp [Method.args, Call.args, Ascii], by decide⟩
  have run := SpecRun.cons set (.cons del (.cons get (.nil _)))
  exact ⟨_, _, run, methods_refine_map [] _ _ _ List.not_mem_nil run⟩

end ScuffedRedisClient
end ScuffedRedis
