import ScuffedRedis.Client.RedisPairing

/-!
# Responses that are lines

`send_and_receive` of `TcpClient` speaks the text protocol. A response ends with a newline, and what
was read behind it is dropped when the next response is read. So every command gets its own line
exactly when no read goes beyond the end of a line, and each line comes before the client gives up.
-/
namespace ScuffedRedis
namespace TcpClient

def newline : UInt8 := 0x0A

def maxBufferSize : Nat := 1024 * 1024

/-- `sizeof(temp_buffer)`. -/
def chunkSize : Nat := 256

/-- One round of the loop of `read_response`: the time is over, or it waits for data. -/
inductive Round where
  | timeOver
  | wait (receive : Receive)

/-- The loop of `read_response`. After the last round the time is over. -/
def readUntilNewline (client : TcpClient) (readBuffer : Bytes) : List Round → Bytes × TcpClient
  | [] | .timeOver :: _ => (readBuffer, client)
  | .wait receive :: rounds =>
    match client.receiveWithTimeout chunkSize receive with
    | (none, client) => (readBuffer, client)
    | (some chunk, client) =>
      let readBuffer := readBuffer ++ chunk
      let it := readBuffer.idxOf newline
      if it ≠ readBuffer.length then (readBuffer.take (it + 1), client)
      else if readBuffer.length > maxBufferSize then (readBuffer, client)
      else readUntilNewline client readBuffer rounds

def readResponse (client : TcpClient) (rounds : List Round) : Bytes × TcpClient :=
  if client.connected = false then ([], client) else client.readUntilNewline [] rounds

def sendCommand (client : TcpClient) (cmd : Bytes) (taken : Bool) : Bool × TcpClient :=
  let formatted := if cmd ≠ [] ∧ cmd.getLast? ≠ some newline then cmd ++ text "\r\n" else cmd
  client.sendRaw formatted taken

/-- A command, what happens to its bytes, what the server sends meanwhile, and the rounds that the
client waits for a response. -/
structure Command where
  cmd : Bytes
  taken : Bool
  arrives : Bytes
  rounds : List Round

def sendAndReceive (client : TcpClient) (command : Command) : Bytes × TcpClient :=
  match client.sendCommand command.cmd command.taken with
  | (false, client) => ([], client)
  | (true, client) =>
    readResponse { client with incoming := client.incoming ++ command.arrives } command.rounds

/-- The responses to commands that are sent one after the other. -/
def responses (client : TcpClient) : List Command → List Bytes
  | [] => []
  | command :: commands =>
    let (response, client) := client.sendAndReceive command
    response :: client.responses commands

/-- A newline at the end, and nowhere else. -/
def IsLine (line : Bytes) : Prop := ∃ content, newline ∉ content ∧ line = content ++ [newline]

/-- The rounds bring a line of this size, of which `read` bytes are there, when so many bytes have
arrived. No read goes beyond the line, and none leaves a part of it that is too large. -/
def Brings (size arrived : Nat) : Nat → List Round → Prop
  | read, .wait (.data count) :: rounds =>
    let next := min (read + min count chunkSize) arrived
    read < next ∧ (next = size ∨ next < size ∧ next ≤ maxBufferSize ∧
      Brings size arrived next rounds)
  | _, _ => False

/-- Every command is taken, and its rounds bring its line. `pending` is what has arrived and was not
read. -/
def Aligned : Bytes → List Bytes → List Command → Prop
  | pending, line :: lines, command :: commands =>
    command.taken = true ∧
      Brings line.length (pending ++ command.arrives).length 0 command.rounds ∧
      Aligned ((pending ++ command.arrives).drop line.length) lines commands
  | _, [], [] => True
  | _, _, _ => False

/-! ### One response -/

theorem readUntilNewline_none {client after : TcpClient} {receive : Receive} (readBuffer : Bytes)
    (rounds : List Round) (nothing : client.receiveWithTimeout chunkSize receive = (none, after)) :
    client.readUntilNewline readBuffer (.wait receive :: rounds) = (readBuffer, after) := by
  rw [readUntilNewline, nothing]

theorem readUntilNewline_some {client after : TcpClient} {receive : Receive} {chunk : Bytes}
    (readBuffer : Bytes) (rounds : List Round)
    (received : client.receiveWithTimeout chunkSize receive = (some chunk, after)) :
    client.readUntilNewline readBuffer (.wait receive :: rounds) =
      if (readBuffer ++ chunk).idxOf newline ≠ (readBuffer ++ chunk).length then
        ((readBuffer ++ chunk).take ((readBuffer ++ chunk).idxOf newline + 1), after)
      else if (readBuffer ++ chunk).length > maxBufferSize then (readBuffer ++ chunk, after)
      else after.readUntilNewline (readBuffer ++ chunk) rounds := by
  rw [readUntilNewline, received]

/-- A response is the front of what was there, and what is kept is behind it. -/
theorem readUntilNewline_kept (client : TcpClient) (readBuffer : Bytes) (rounds : List Round) :
    ∃ tail, readBuffer ++ client.incoming = (client.readUntilNewline readBuffer rounds).1 ++ tail ∧
      (client.readUntilNewline readBuffer rounds).2.incoming.Sublist tail := by
  induction rounds generalizing client readBuffer with
  | nil => exact ⟨client.incoming, rfl, .refl _⟩
  | cons round rounds ih =>
    cases round with
    | timeOver => exact ⟨client.incoming, rfl, .refl _⟩
    | wait receive =>
      cases received : client.receiveWithTimeout chunkSize receive with
      | mk chunk after =>
        cases chunk with
        | none =>
          rw [readUntilNewline_none readBuffer rounds received]
          obtain ⟨lost, kept⟩ := RedisClient.receive_none received
          have front : after.incoming <+: client.incoming := ⟨lost, kept⟩
          exact ⟨client.incoming, rfl, front.sublist⟩
        | some chunk =>
          have taken := RedisClient.receive_some received
          rw [readUntilNewline_some readBuffer rounds received, ← taken, ← List.append_assoc]
          split
          · refine ⟨(readBuffer ++ chunk).drop ((readBuffer ++ chunk).idxOf newline + 1) ++
              after.incoming, ?_, List.sublist_append_right _ _⟩
            rw [← List.append_assoc, List.take_append_drop]
          · split
            · exact ⟨after.incoming, rfl, .refl _⟩
            · exact ih after (readBuffer ++ chunk)

/-- In the front of a stream that begins with a line there is a newline when the line is in it. -/
theorem idxOf_newline_take {content : Bytes} (plain : newline ∉ content) (rest : Bytes)
    (next : Nat) :
    ((content ++ newline :: rest).take next).idxOf newline =
      if content.length < next then content.length
      else ((content ++ newline :: rest).take next).length := by
  split
  next within =>
    obtain ⟨more, rfl⟩ := Nat.exists_eq_add_of_lt within
    rw [List.take_append, List.take_of_length_le (by omega),
      show content.length + more + 1 - content.length = more + 1 by omega, List.take_succ_cons,
      List.idxOf_append_of_notMem plain, List.idxOf_cons_self, Nat.add_zero]
  next beyond =>
    rw [List.take_append_of_le_length (by omega)]
    exact List.idxOf_eq_length fun listed => plain (List.mem_of_mem_take listed)

theorem brings_le {size arrived read : Nat} {rounds : List Round}
    (brings : Brings size arrived read rounds) : size ≤ arrived := by
  induction rounds generalizing read with
  | nil => exact brings.elim
  | cons round rounds ih =>
    cases round with
    | timeOver => exact brings.elim
    | wait receive =>
      cases receive with
      | data count =>
        obtain ⟨-, whole | ⟨-, -, later⟩⟩ := brings
        · rw [← whole]
          exact Nat.min_le_right _ _
        · exact ih later
      | timeout | closed => exact brings.elim

/-- The client has read so much of a stream that has arrived. -/
structure ReadTo (stream : Bytes) (read : Nat) (client : TcpClient) (readBuffer : Bytes) :
    Prop where
  readBuffer : readBuffer = stream.take read
  incoming : client.incoming = stream.drop read
  connected : client.connected = true

section Line

variable {content rest : Bytes} (plain : newline ∉ content) {client : TcpClient} {read : Nat}
  {readBuffer : Bytes}

/-- A wait that ends with data. -/
theorem ReadTo.receive {stream : Bytes} (readTo : ReadTo stream read client readBuffer)
    (more : read < stream.length) (count : Nat) :
    (min (read + min count chunkSize) stream.length = read ∧
      client.receiveWithTimeout chunkSize (.data count) = (none, client)) ∨
    (read < min (read + min count chunkSize) stream.length ∧ ∃ chunk after,
      client.receiveWithTimeout chunkSize (.data count) = (some chunk, after) ∧
      ReadTo stream (min (read + min count chunkSize) stream.length) after
        (readBuffer ++ chunk)) := by
  rw [receiveWithTimeout, if_neg (by simp [readTo.connected])]
  rcases Nat.eq_zero_or_pos (min count chunkSize) with nothing | positive
  · refine .inl ⟨by omega, ?_⟩
    simp only [nothing, List.take_zero]
  · refine .inr ⟨by omega, ?_⟩
    have bytes : client.incoming.take (min count chunkSize) ≠ [] := by
      rw [readTo.incoming]
      refine List.ne_nil_of_length_pos ?_
      rw [List.length_take, List.length_drop]
      omega
    obtain ⟨byte, more, taken⟩ := List.exists_cons_of_ne_nil bytes
    simp only [taken]
    refine ⟨_, _, rfl, ?_, ?_, readTo.connected⟩
    · rw [readTo.readBuffer, ← taken, readTo.incoming, ← List.take_add, List.take_eq_take_min]
    · change client.incoming.drop (min count chunkSize) = _
      rw [readTo.incoming, List.drop_drop]
      rcases Nat.le_total (read + min count chunkSize) stream.length with within | beyond
      · rw [Nat.min_eq_left within]
      · rw [Nat.min_eq_right beyond, List.drop_length, List.drop_eq_nil_of_le beyond]

include plain

/-- The response is the line, and nothing behind it is lost, exactly when the rounds bring it. -/
theorem readUntilNewline_iff (readTo : ReadTo (content ++ newline :: rest) read client readBuffer)
    (incomplete : read ≤ content.length) (rounds : List Round) :
    ((client.readUntilNewline readBuffer rounds).1 = content ++ [newline] ∧
      (client.readUntilNewline readBuffer rounds).2.incoming = rest ↔
      Brings (content.length + 1) (content ++ newline :: rest).length read rounds) ∧
    (Brings (content.length + 1) (content ++ newline :: rest).length read rounds →
      (client.readUntilNewline readBuffer rounds).2.connected = true) := by
  have size : (content ++ newline :: rest).length = content.length + 1 + rest.length := by
    rw [List.length_append, List.length_cons]
    omega
  -- What is there is shorter than the line.
  have short {read : Nat} {readBuffer : Bytes} (incomplete : read ≤ content.length)
      (front : readBuffer = (content ++ newline :: rest).take read) :
      readBuffer ≠ content ++ [newline] := by
    intro same
    have lengths := congrArg List.length (same.symm.trans front)
    rw [List.length_take, size, List.length_append, List.length_singleton] at lengths
    omega
  induction rounds generalizing client read readBuffer with
  | nil => exact ⟨iff_of_false (fun whole => short incomplete readTo.readBuffer whole.1) id,
    False.elim⟩
  | cons round rounds ih =>
    cases round with
    | timeOver =>
      exact ⟨iff_of_false (fun whole => short incomplete readTo.readBuffer whole.1) id, False.elim⟩
    | wait receive =>
      have silent (nothing : ∀ count, receive ≠ .data count) :
          (client.readUntilNewline readBuffer (.wait receive :: rounds)).1 = readBuffer := by
        cases received : client.receiveWithTimeout chunkSize receive with
        | mk chunk after =>
          obtain rfl : chunk = none := by
            rw [← RedisClient.receive_silent client chunkSize nothing, received]
          rw [readUntilNewline_none readBuffer rounds received]
      cases receive with
      | timeout | closed =>
        rw [silent nofun]
        exact ⟨iff_of_false (fun whole => short incomplete readTo.readBuffer whole.1) id,
          False.elim⟩
      | data count =>
        obtain ⟨same, nothing⟩ | ⟨more, chunk, after, received, readTo⟩ :=
          readTo.receive (by omega) count
        · rw [readUntilNewline_none readBuffer rounds nothing]
          have stuck : ¬ Brings (content.length + 1) (content ++ newline :: rest).length read
              (.wait (.data count) :: rounds) := fun brings => by
            have := brings.1
            omega
          exact ⟨iff_of_false (fun whole => short incomplete readTo.readBuffer whole.1) stuck,
            fun brings => absurd brings stuck⟩
        · generalize reached : min (read + min count chunkSize)
            (content ++ newline :: rest).length = next at more readTo
          have bound : next ≤ (content ++ newline :: rest).length := by
            rw [← reached]
            exact Nat.min_le_right _ _
          have brings_iff : Brings (content.length + 1) (content ++ newline :: rest).length read
              (.wait (.data count) :: rounds) ↔
              next = content.length + 1 ∨ next < content.length + 1 ∧ next ≤ maxBufferSize ∧
                Brings (content.length + 1) (content ++ newline :: rest).length next rounds := by
            rw [Brings, reached]
            exact and_iff_right more
          have length : (readBuffer ++ chunk).length = next := by
            rw [readTo.readBuffer, List.length_take, Nat.min_eq_left bound]
          have found := idxOf_newline_take plain rest next
          rw [← readTo.readBuffer, length] at found
          rw [readUntilNewline_some readBuffer rounds received, found, length, brings_iff]
          by_cases within : content.length < next
          · -- The newline is there, and the response is the line.
            have line : (readBuffer ++ chunk).take (content.length + 1) = content ++ [newline] := by
              rw [readTo.readBuffer, List.take_take, Nat.min_eq_left (by omega), List.take_append,
                List.take_of_length_le (Nat.le_succ _), Nat.add_sub_cancel_left]
              rfl
            rw [if_pos within, if_pos (by omega), readTo.incoming, line]
            refine ⟨?_, fun _ => readTo.connected⟩
            have behind : (content ++ newline :: rest).drop next = rest ↔
                next = content.length + 1 := by
              rw [size] at bound
              constructor
              · intro same
                have lengths := congrArg List.length same
                rw [List.length_drop, size] at lengths
                omega
              · rintro rfl
                rw [List.drop_append, List.drop_of_length_le (Nat.le_succ _),
                  Nat.add_sub_cancel_left]
                rfl
            rw [behind]
            refine ⟨fun whole => .inl whole.2, ?_⟩
            rintro (whole | ⟨less, -⟩)
            · exact ⟨rfl, whole⟩
            · omega
          · rw [if_neg within, if_neg (by simp)]
            by_cases large : next > maxBufferSize
            · rw [if_pos large]
              have stuck : ¬ (next = content.length + 1 ∨ next < content.length + 1 ∧
                  next ≤ maxBufferSize ∧ Brings (content.length + 1)
                    (content ++ newline :: rest).length next rounds) := by
                rintro (whole | ⟨-, fits, -⟩) <;> omega
              exact ⟨iff_of_false (fun whole => short (by omega) readTo.readBuffer whole.1) stuck,
                fun brings => absurd brings stuck⟩
            · rw [if_neg large]
              obtain ⟨whole, connected⟩ := ih readTo (by omega)
              have later : (next = content.length + 1 ∨ next < content.length + 1 ∧
                  next ≤ maxBufferSize ∧ Brings (content.length + 1)
                    (content ++ newline :: rest).length next rounds) ↔
                  Brings (content.length + 1) (content ++ newline :: rest).length next rounds := by
                rw [or_iff_right (by omega), and_iff_right (by omega), and_iff_right (by omega)]
              rw [later]
              exact ⟨whole, connected⟩

end Line

/-! ### One command -/

/-- The client once a command is sent and what the server sends has arrived. -/
def awaiting (client : TcpClient) (command : Command) : TcpClient :=
  { (client.sendCommand command.cmd true).2 with incoming := client.incoming ++ command.arrives }

theorem sendAndReceive_taken {client : TcpClient} {command : Command}
    (connected : client.connected = true) (taken : command.taken = true) :
    client.sendAndReceive command =
      (client.awaiting command).readUntilNewline [] command.rounds := by
  simp only [sendAndReceive, sendCommand, sendRaw, taken, awaiting, readResponse, connected,
    if_true, Bool.true_eq_false, if_false]

theorem sendAndReceive_untaken {client : TcpClient} {command : Command}
    (untaken : client.connected = false ∨ command.taken = false) :
    (client.sendAndReceive command).1 = [] ∧
      (client.sendAndReceive command).2.incoming.Sublist client.incoming := by
  by_cases connected : client.connected = false
  · simp [sendAndReceive, sendCommand, sendRaw, connected]
  · have refused := untaken.resolve_left connected
    simp [sendAndReceive, sendCommand, sendRaw, connected, refused, disconnect, initial]

theorem sendAndReceive_kept (client : TcpClient) (command : Command) :
    ∃ tail, client.incoming ++ command.arrives = (client.sendAndReceive command).1 ++ tail ∧
      (client.sendAndReceive command).2.incoming.Sublist tail := by
  by_cases untaken : client.connected = false ∨ command.taken = false
  · obtain ⟨nothing, kept⟩ := sendAndReceive_untaken untaken
    rw [nothing]
    exact ⟨_, rfl, kept.trans (List.sublist_append_left _ _)⟩
  · rw [not_or, Bool.not_eq_false, Bool.not_eq_false] at untaken
    rw [sendAndReceive_taken untaken.1 untaken.2]
    exact readUntilNewline_kept (client.awaiting command) [] command.rounds

/-- A command whose line has arrived. -/
theorem sendAndReceive_iff {client : TcpClient} (connected : client.connected = true)
    {command : Command} {content rest : Bytes} (plain : newline ∉ content)
    (arrived : client.incoming ++ command.arrives = content ++ newline :: rest) :
    ((client.sendAndReceive command).1 = content ++ [newline] ∧
      (client.sendAndReceive command).2.incoming = rest ↔
      command.taken = true ∧
        Brings (content.length + 1) (content ++ newline :: rest).length 0 command.rounds) ∧
    (command.taken = true ∧
        Brings (content.length + 1) (content ++ newline :: rest).length 0 command.rounds →
      (client.sendAndReceive command).2.connected = true) := by
  by_cases taken : command.taken = true
  · have started : ReadTo (content ++ newline :: rest) 0 (client.awaiting command) [] := by
      refine ⟨rfl, arrived, ?_⟩
      simp [awaiting, sendCommand, sendRaw, connected]
    rw [sendAndReceive_taken connected taken, and_iff_right taken]
    exact readUntilNewline_iff plain started (Nat.zero_le _) command.rounds
  · obtain ⟨nothing, -⟩ := sendAndReceive_untaken
      (show client.connected = false ∨ command.taken = false from
        .inr (Bool.eq_false_of_not_eq_true taken))
    rw [nothing]
    exact ⟨iff_of_false (by simp) fun brings => taken brings.1, fun brings => absurd brings.1 taken⟩

/-! ### All commands -/

/-- No byte is in two responses. -/
theorem length_responses_le (client : TcpClient) (commands : List Command) :
    (client.responses commands).flatten.length ≤
      client.incoming.length + (commands.map Command.arrives).flatten.length := by
  induction commands generalizing client with
  | nil => exact Nat.zero_le _
  | cons command commands ih =>
    obtain ⟨tail, split, kept⟩ := client.sendAndReceive_kept command
    have lengths := congrArg List.length split
    have later := ih (client.sendAndReceive command).2
    have fewer := kept.length_le
    rw [List.length_append, List.length_append] at lengths
    rw [responses, List.flatten_cons, List.map_cons, List.flatten_cons, List.length_append,
      List.length_append]
    omega

/-- **Responses.** When the server sends one line for each command, and in whatever portions and
however early or late the lines arrive, the responses are the lines exactly when all commands are
taken and no round reads beyond a line, or stops in front of its end. -/
theorem responses_iff {client : TcpClient} (connected : client.connected = true)
    {lines : List Bytes} (each : ∀ line ∈ lines, IsLine line) {commands : List Command}
    (stream : client.incoming ++ (commands.map Command.arrives).flatten = lines.flatten) :
    client.responses commands = lines ↔ Aligned client.incoming lines commands := by
  induction commands generalizing client lines with
  | nil =>
    cases lines with
    | nil => exact iff_of_true rfl trivial
    | cons line lines => exact iff_of_false (by simp [responses]) id
  | cons command commands ih =>
    cases lines with
    | nil => exact iff_of_false (by simp [responses]) id
    | cons line lines =>
      rw [List.forall_mem_cons] at each
      obtain ⟨⟨content, plain, rfl⟩, each⟩ := each
      rw [List.map_cons, List.flatten_cons, List.flatten_cons, ← List.append_assoc] at stream
      rw [responses, List.cons.injEq, Aligned, List.length_append, List.length_singleton]
      obtain ⟨tail, parted, kept⟩ := client.sendAndReceive_kept command
      by_cases enough : content.length + 1 ≤ (client.incoming ++ command.arrives).length
      · have front : content ++ [newline] <+: client.incoming ++ command.arrives :=
          List.prefix_of_prefix_length_le ⟨lines.flatten, stream.symm⟩ ⟨_, rfl⟩
            (by rwa [List.length_append, List.length_singleton])
        obtain ⟨rest, arrived⟩ := front
        rw [← arrived, List.append_assoc, List.append_cancel_left_eq] at stream
        have split : client.incoming ++ command.arrives = content ++ newline :: rest := by
          rw [← arrived, List.append_assoc, List.singleton_append]
        have behind : (client.incoming ++ command.arrives).drop (content.length + 1) = rest := by
          rw [← arrived]
          exact List.drop_left' (by rw [List.length_append, List.length_singleton])
        obtain ⟨own, stays⟩ := sendAndReceive_iff connected plain split
        rw [behind, split]
        constructor
        · rintro ⟨response, others⟩
          -- All bytes that follow are in later responses, so none of them was lost.
          have rest_eq : tail = rest := by
            rw [response, ← arrived, List.append_cancel_left_eq] at parted
            exact parted.symm
          rw [rest_eq] at kept
          have atMost := length_responses_le (client.sendAndReceive command).2 commands
          rw [others, ← stream, List.length_append] at atMost
          have whole := kept.eq_of_length_le (by omega)
          have brings := own.mp ⟨response, whole⟩
          refine ⟨brings.1, brings.2, ?_⟩
          rw [← whole]
          exact (ih (stays brings) each (by rw [whole, stream])).mp others
        · rintro ⟨taken, brings, aligned⟩
          obtain ⟨response, whole⟩ := own.mpr ⟨taken, brings⟩
          rw [← whole] at aligned
          exact ⟨response,
            (ih (stays ⟨taken, brings⟩) each (by rw [whole, stream])).mpr aligned⟩
      · refine iff_of_false (fun same => ?_) fun aligned => enough (brings_le aligned.2.1)
        have lengths := congrArg List.length parted
        rw [same.1] at lengths
        simp only [List.length_append, List.length_singleton] at lengths enough
        omega

/-- Two lines that come in one portion, of which the client reads one. -/
def twoLines : List Command :=
  [⟨text "GET a", true, text "1\n2\n", [.wait (.data 2)]⟩,
    ⟨text "GET b", true, [], [.wait (.data 9)]⟩]

theorem responses_iff_two :
    (responses { initial with connected := true } twoLines = [text "1\n", text "2\n"] ↔
      Aligned [] [text "1\n", text "2\n"] twoLines) := by
  refine responses_iff rfl ?_ rfl
  intro line listed
  simp only [List.mem_cons, List.not_mem_nil, or_false] at listed
  rcases listed with rfl | rfl
  · exact ⟨[0x31], by decide, rfl⟩
  · exact ⟨[0x32], by decide, rfl⟩

end TcpClient
end ScuffedRedis
