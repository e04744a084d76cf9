import ScuffedRedis.Client.RedisClient
import ScuffedRedis.Protocol.Prefixes
import ScuffedRedis.Foundation.Simulation

/-!
# Which reply a command returns

A command that starts with nothing of an earlier reply in the parser or on the connection returns
its own reply or an error of the client. Nothing else makes sure of that: a reply that was late or
cut stays there, and the next command takes it.
-/
namespace ScuffedRedis
namespace RedisClient

open Foundation Protocol

/-! ### Runs -/

/-- The errors that the client makes itself. -/
def clientErrors : List Message :=
  ["Empty command", "Not connected to server", "Failed to send command",
    "Failed to receive response", "Failed to parse response"].map fun error =>
      errorResponse (text error)

/-- A command returns the reply to it, as it is read back, or an error of the client. -/
def Op.Answered : Op → Answer → Prop
  | .execute _ exchange, .response message =>
    message = exchange.reply.readBack ∨ message ∈ clientErrors
  | .connect _, .connected _ => True
  | .disconnect, .done => True
  | _, _ => False

/-- No byte of an earlier reply is left. -/
def Settled (redis : RedisClient) : Prop := redis.parser = [] ∧ redis.client.incoming = []

/-- The command gets no byte: it is not sent, or the first wait ends without data. -/
def Silent (redis : RedisClient) (args : List Bytes) (exchange : Exchange) : Prop :=
  redis.client.connected = false ∨ args = [] ∨ exchange.taken = false ∨
    ∀ count, exchange.receives.head? ≠ some (.data count)

/-- The replies that a command can get are its own, or it gets none. -/
def Clear (redis : RedisClient) : Op → Prop
  | .execute args exchange =>
    Silent redis args exchange ∨ (Settled redis ∧ exchange.reply.Encodable)
  | _ => True

def next (redis : RedisClient) (op : Op) : Option RedisClient := (redis.step op).map Prod.snd

/-! ### One command -/

theorem receive_some {client after : TcpClient} {size : Nat} {receive : Receive} {chunk : Bytes}
    (received : client.receiveWithTimeout size receive = (some chunk, after)) :
    chunk ++ after.incoming = client.incoming := by
  unfold TcpClient.receiveWithTimeout at received
  split at received
  · cases received
  · cases receive with
    | data count =>
      -- A result with bytes is the front of what is on the connection.
      simp only at received
      split at received
      · cases received
      next =>
        cases received
        exact List.take_append_drop _ _
    | timeout => cases received
    | closed => cases received

theorem receive_none {client after : TcpClient} {size : Nat} {receive : Receive}
    (received : client.receiveWithTimeout size receive = (none, after)) :
    ∃ lost, after.incoming ++ lost = client.incoming := by
  have same : ∃ lost, client.incoming ++ lost = client.incoming := ⟨[], List.append_nil _⟩
  unfold TcpClient.receiveWithTimeout at received
  split at received
  · cases received
    exact same
  · cases receive with
    | data count =>
      simp only at received
      split at received
      · cases received
        exact same
      · cases received
    | timeout =>
      cases received
      exact same
    | closed =>
      -- What was still on its way is lost with the socket.
      cases received
      unfold TcpClient.disconnect
      split
      · exact ⟨client.incoming, rfl⟩
      · exact same

/-- The parser gets bytes only from the connection, in their order. What it does not get is still
there, or it is lost with the connection. -/
theorem readOn_missing (redis : RedisClient) (receives : List Receive) :
    ∃ lost, (readOn redis receives).parser ++ ((readOn redis receives).client.incoming ++ lost) =
      redis.parser ++ redis.client.incoming := by
  have same : ∃ lost, redis.parser ++ (redis.client.incoming ++ lost) =
      redis.parser ++ redis.client.incoming := ⟨[], by rw [List.append_nil]⟩
  induction receives generalizing redis with
  | nil => exact same
  | cons receive receives ih =>
    rw [readOn]
    split
    · cases received : redis.client.receiveWithTimeout bufferSize receive with
      | mk result client =>
        cases result with
        -- Nothing more is read: a closed connection takes its bytes with it.
        | none =>
          obtain ⟨lost, rest⟩ := receive_none received
          exact ⟨lost, congrArg _ rest⟩
        | some chunk =>
          obtain ⟨lost, whole⟩ := ih ⟨client, Parser.feed redis.parser chunk⟩ ⟨[], by simp⟩
          refine ⟨lost, whole.trans ?_⟩
          rw [Parser.feed, List.append_assoc, receive_some received]
    · exact same

/-- What the end of a command makes of a reply, or of the part of it that is there. A reply that
is there leaves nothing behind. -/
theorem parseReply_spec {redis : RedisClient} {reply : Message} (built : reply.Encodable)
    {missing : Bytes} (whole : redis.parser ++ missing = reply.serialize) :
    ∃ message last, parseReply redis = some (message, last) ∧ last.client = redis.client ∧
      (message = reply.readBack ∧ last.parser = [] ∧ missing = [] ∨ message ∈ clientErrors) := by
  by_cases complete : missing = []
  · have takes := takes_serialize built []
    rw [List.append_nil, ← whole, complete, List.append_nil] at takes
    refine ⟨reply.readBack, { redis with parser := [] }, ?_, rfl, .inl ⟨rfl, rfl, complete⟩⟩
    rw [parseReply, Parser.parseMessage_of_takes takes]
  · obtain ⟨rest, parsed⟩ := Parser.nothing_of_part built ⟨missing, complete, whole.symm⟩
    refine ⟨errorResponse (text "Failed to parse response"), { redis with parser := rest }, ?_,
      rfl, .inr (by simp [clientErrors])⟩
    rw [parseReply, parsed]

theorem receiveReply_spec {redis : RedisClient} {reply : Message} (built : reply.Encodable)
    (empty : redis.parser = []) (own : redis.client.incoming = reply.serialize)
    (receives : List Receive) :
    ∃ message last, receiveReply redis receives = some (message, last) ∧
      (message = reply.readBack ∧ Settled last ∨ message ∈ clientErrors) := by
  cases receives with
  | nil => exact ⟨_, _, rfl, .inr (by simp [clientErrors])⟩
  | cons receive receives =>
    rw [receiveReply]
    cases received : redis.client.receiveWithTimeout bufferSize receive with
    | mk result client =>
      cases result with
      | none => exact ⟨_, _, rfl, .inr (by simp [clientErrors])⟩
      | some chunk =>
        obtain ⟨lost, whole⟩ := readOn_missing ⟨client, Parser.feed redis.parser chunk⟩ receives
        -- All that the parser can get is the reply itself.
        have start : Parser.feed redis.parser chunk ++ client.incoming = reply.serialize := by
          rw [Parser.feed, empty, List.nil_append, receive_some received, own]
        obtain ⟨message, last, parsed, kept, answered⟩ :=
          parseReply_spec built (whole.trans start)
        refine ⟨message, last, parsed, answered.imp_left ?_⟩
        rintro ⟨own, nothing, missing⟩
        exact ⟨own, nothing, kept ▸ (List.append_eq_nil_iff.mp missing).1⟩

theorem receive_silent (client : TcpClient) (size : Nat) {receive : Receive}
    (silent : ∀ count, receive ≠ .data count) :
    (client.receiveWithTimeout size receive).1 = none := by
  unfold TcpClient.receiveWithTimeout
  split
  · rfl
  · cases receive with
    | data count => exact absurd rfl (silent count)
    | timeout => rfl
    | closed => rfl

/-- Without data in the first wait the command ends there. -/
theorem receiveReply_silent (redis : RedisClient) {receives : List Receive}
    (silent : ∀ count, receives.head? ≠ some (.data count)) :
    ∃ last, receiveReply redis receives =
      some (errorResponse (text "Failed to receive response"), last) := by
  cases receives with
  | nil => exact ⟨redis, rfl⟩
  | cons receive receives =>
    have other (count : Nat) : receive ≠ .data count := fun same =>
      silent count (congrArg some same)
    have nothing := receive_silent redis.client bufferSize other
    rw [receiveReply]
    cases received : redis.client.receiveWithTimeout bufferSize receive with
    | mk result client =>
      rw [received] at nothing
      subst nothing
      exact ⟨_, rfl⟩

/-- The command is sent, and the reply to it follows what is on the connection. -/
def sent (redis : RedisClient) (cmd reply : Message) : RedisClient :=
  { redis with client :=
    { redis.client with
      outgoing := redis.client.outgoing ++ cmd.serialize
      incoming := redis.client.incoming ++ reply.serialize } }

theorem sendCommand_taken {redis : RedisClient} {exchange : Exchange} (cmd : Message)
    (connected : ¬ redis.client.connected = false) (taken : exchange.taken = true) :
    redis.sendCommand cmd exchange =
      (redis.sent cmd exchange.reply).receiveReply exchange.receives := by
  rw [sendCommand, if_neg connected, TcpClient.sendRaw, if_neg connected, if_pos taken]
  rfl

/-- A command that starts with nothing left returns its own reply, and then nothing is left after
it, or an error. -/
theorem execute_spec {redis : RedisClient} {args : List Bytes} {exchange : Exchange}
    (clear : Silent redis args exchange ∨ (Settled redis ∧ exchange.reply.Encodable)) :
    ∃ message last, redis.execute args exchange = some (message, last) ∧
      (message = exchange.reply.readBack ∧ Settled last ∨ message ∈ clientErrors) := by
  unfold execute
  -- Each way out before the reply is read gives an error of the client.
  by_cases empty : args = []
  · rw [if_pos empty]
    exact ⟨_, _, rfl, .inr (by simp [clientErrors])⟩
  rw [if_neg empty]
  by_cases apart : redis.client.connected = false
  · rw [sendCommand, if_pos apart]
    exact ⟨_, _, rfl, .inr (by simp [clientErrors])⟩
  by_cases taken : exchange.taken = true
  · rw [sendCommand_taken _ apart taken]
    rcases clear with (off | noCommand | lost | silent) | ⟨⟨nothing, quiet⟩, built⟩
    · exact absurd off apart
    · exact absurd noCommand empty
    · exact absurd (taken.symm.trans lost) (by decide)
    · obtain ⟨last, received⟩ :=
        receiveReply_silent (redis.sent (makeCommand args) exchange.reply) silent
      exact ⟨_, last, received, .inr (by simp [clientErrors])⟩
    · -- Nothing was left, so the connection carries this reply alone.
      have fresh : (redis.sent (makeCommand args) exchange.reply).parser = [] := nothing
      have own : (redis.sent (makeCommand args) exchange.reply).client.incoming =
          exchange.reply.serialize := by
        change redis.client.incoming ++ exchange.reply.serialize = _
        rw [quiet, List.nil_append]
      exact receiveReply_spec built fresh own exchange.receives
  · rw [sendCommand, if_neg apart, TcpClient.sendRaw, if_neg apart, if_neg taken]
    exact ⟨_, _, rfl, .inr (by simp [clientErrors])⟩

/-! ### All commands -/

theorem step_answered {redis : RedisClient} {op : Op} (clear : Clear redis op) :
    ∃ answer last, redis.step op = some (answer, last) ∧ op.Answered answer := by
  cases op with
  | connect established => exact ⟨_, _, rfl, trivial⟩
  | disconnect => exact ⟨_, _, rfl, trivial⟩
  | execute args exchange =>
    obtain ⟨message, last, executed, answered⟩ := execute_spec clear
    refine ⟨.response message, last, ?_, answered.imp_left And.left⟩
    rw [step, executed]
    rfl

/-- **Pairing.** In a run in which no command meets bytes of an earlier reply, unless it gets none
at all, every command returns the reply to it or an error of the client. -/
theorem run_answered (ops : List Op) (clear : EachStep next Clear initial ops) :
    ∃ answers last, runAnswers step initial ops = some (answers, last) ∧
      List.Forall₂ Op.Answered ops answers := by
  generalize initial = redis at clear
  induction ops generalizing redis with
  | nil => exact ⟨[], redis, rfl, .nil⟩
  | cons op ops ih =>
    obtain ⟨answer, after, stepped, answered⟩ := step_answered clear.1
    obtain ⟨answers, last, rest, others⟩ := ih after (clear.2 after (by rw [next, stepped]; rfl))
    exact ⟨answer :: answers, last, runAnswers_cons stepped rest, .cons answered others⟩

theorem run_answered_one :
    ∃ answers last,
      runAnswers step initial [.connect true, .execute [text "GET", text "a"]
          ⟨true, Message.makeBulkString (text "1"), [.data 4, .timeout, .data 4096]⟩] =
        some (answers, last) ∧
      List.Forall₂ Op.Answered [.connect true, .execute [text "GET", text "a"]
          ⟨true, Message.makeBulkString (text "1"), [.data 4, .timeout, .data 4096]⟩] answers := by
  refine run_answered _ ⟨trivial, fun after stepped => ⟨.inr ⟨?_, .bulkString _ (by decide)⟩,
    fun _ _ => trivial⟩⟩
  cases stepped
  exact ⟨rfl, rfl⟩

/-- The first reply comes after its command has given up. The second command returns it. -/
theorem late_reply_returned : ¬ ∀ ops : List Op,
    (∀ args exchange, .execute args exchange ∈ ops → exchange.reply.Encodable) →
      ∃ answers last, runAnswers step initial ops = some (answers, last) ∧
        List.Forall₂ Op.Answered ops answers := by
  intro always
  obtain ⟨answers, last, run, answered⟩ := always
    [.connect true,
      .execute [text "GET", text "a"] ⟨true, Message.makeBulkString (text "1"), [.timeout]⟩,
      .execute [text "GET", text "b"] ⟨true, Message.makeBulkString (text "2"), [.data 4096]⟩] (by
        intro args exchange listed
        simp only [List.mem_cons, reduceCtorEq, Op.execute.injEq, List.not_mem_nil, or_false,
          false_or] at listed
        rcases listed with ⟨-, rfl⟩ | ⟨-, rfl⟩
        · exact .bulkString _ (by decide)
        · exact .bulkString _ (by decide))
  cases run
  -- The answers are an error, and then the reply that the first command waited for.
  obtain - | ⟨-, - | ⟨-, - | ⟨third, -⟩⟩⟩ := answered
  have returned : Message.makeBulkString (text "1") = Message.makeBulkString (text "2") ∨
      Message.makeBulkString (text "1") ∈ clientErrors := third
  rcases returned with own | error
  · cases own
  · simp [clientErrors, errorResponse, Message.makeError, Message.makeBulkString] at error

end RedisClient
end ScuffedRedis
