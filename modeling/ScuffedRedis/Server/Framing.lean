import ScuffedRedis.Server.Feeding

/-!
# How the server depends on the cuts of the stream

A client sends commands, and the network cuts their bytes into reads. The handler is in step
when it has answered what has arrived in full and holds exactly the rest. It stays in step
through the reads that end at most four bytes into a command and complete at least one: the
others either leave the read buffer to be fed twice, or lose the header of a command to
`parse_array`.
-/
namespace ScuffedRedis

open Protocol Foundation

/-! ### Streams of commands -/

/-- `pending` is a proper front of the next frame, and nothing when no command is left. -/
def Unfinished (pending : Bytes) : List (List Bytes) → Prop
  | [] => pending = []
  | args :: _ => ∃ missing, missing ≠ [] ∧ commandFrame args = pending ++ missing

theorem length_commandStream (commands : List (List Bytes)) :
    commands.length ≤ (commandStream commands).length := by
  induction commands with
  | nil => exact le_refl _
  | cons args commands ih =>
    have := five_le_commandFrame args
    rw [commandStream_cons, List.length_append, List.length_cons]
    omega

theorem length_commandFrame_le {args : List Bytes} {commands : List (List Bytes)}
    (listed : args ∈ commands) : (commandFrame args).length ≤ (commandStream commands).length := by
  obtain ⟨before, after, rfl⟩ := List.append_of_mem listed
  rw [commandStream_append, commandStream_cons, List.length_append, List.length_append]
  omega

/-- The front of a stream is some commands in full and an unfinished one. -/
theorem split_commandStream {bytes rest : Bytes} {commands : List (List Bytes)}
    (stream : bytes ++ rest = commandStream commands) :
    ∃ now later tail, commands = now ++ later ∧ bytes = commandStream now ++ tail ∧
      Unfinished tail later := by
  induction commands generalizing bytes with
  | nil =>
    have empty : bytes = [] := (List.append_eq_nil_iff.mp stream).1
    exact ⟨[], [], [], rfl, empty, rfl⟩
  | cons args commands ih =>
    rw [commandStream_cons] at stream
    -- The bytes end inside the first frame or at its end, or go beyond it.
    rcases List.append_eq_append_iff.mp stream with
      ⟨missing, frame, others⟩ | ⟨more, front, stream'⟩
    · by_cases complete : missing = []
      · rw [complete, List.append_nil] at frame
        rw [complete, List.nil_append] at others
        obtain ⟨now, later, tail, split, empty, unfinished⟩ :=
          ih ((List.nil_append rest).trans others)
        refine ⟨args :: now, later, tail, by rw [split, List.cons_append], ?_, unfinished⟩
        rw [commandStream_cons, List.append_assoc, ← empty, List.append_nil, frame]
      · exact ⟨[], args :: commands, bytes, rfl, rfl, missing, complete, frame⟩
    · obtain ⟨now, later, tail, split, rest', unfinished⟩ := ih stream'.symm
      refine ⟨args :: now, later, tail, by rw [split, List.cons_append], ?_, unfinished⟩
      rw [front, rest', commandStream_cons, List.append_assoc]

theorem unfinished_append_left {pending : Bytes} {args : List Bytes} {commands : List (List Bytes)}
    (unfinished : Unfinished pending (args :: commands)) :
    pending.length < (commandFrame args).length := by
  obtain ⟨missing, nonempty, frame⟩ := unfinished
  have := List.length_pos_iff.mpr nonempty
  rw [frame, List.length_append]
  omega

/-- There is only one way to split the front of a stream so. -/
theorem split_unique {done done' later later' : List (List Bytes)} {pending pending' : Bytes}
    (commands : done ++ later = done' ++ later')
    (bytes : commandStream done ++ pending = commandStream done' ++ pending')
    (unfinished : Unfinished pending later) (unfinished' : Unfinished pending' later') :
    done = done' ∧ later = later' ∧ pending = pending' := by
  -- The commands that one side has beyond the other would be unfinished there.
  have nothingMore : ∀ {extra later : List (List Bytes)} {pending pending' : Bytes},
      Unfinished pending (extra ++ later) → pending = commandStream extra ++ pending' →
      extra = [] := by
    intro extra later pending pending' unfinished split
    cases extra with
    | nil => rfl
    | cons args extra =>
      have shorter := unfinished_append_left unfinished
      rw [split, commandStream_cons, List.length_append, List.length_append] at shorter
      omega
  rcases List.append_eq_append_iff.mp commands with ⟨extra, rfl, rfl⟩ | ⟨extra, rfl, rfl⟩
  · rw [commandStream_append, List.append_assoc, List.append_cancel_left_eq] at bytes
    have empty := nothingMore unfinished bytes
    subst empty
    simpa using bytes
  · rw [commandStream_append, List.append_assoc, List.append_cancel_left_eq] at bytes
    have empty := nothingMore unfinished' bytes.symm
    subst empty
    simpa using bytes

/-- No message can be taken from an unfinished frame. -/
theorem not_takes_unfinished {tail : Bytes} {later : List (List Bytes)}
    (short : ∀ args ∈ later, (commandFrame args).length ≤ 2 ^ 20)
    (unfinished : Unfinished tail later) (request : Message) (rest : Bytes) :
    Parser.parseMessage tail ≠ (.message request, rest) := by
  intro parsed
  cases later with
  | nil =>
    rw [show tail = [] from unfinished] at parsed
    cases parsed
  | cons args later =>
    obtain ⟨missing, nonempty, frame⟩ := unfinished
    -- With the missing bytes the message would leave them in the buffer, but nothing is left.
    have longer := Parser.parseMessage_of_takes
      ((Parser.takes_of_parseMessage parsed).append missing)
    have whole := Parser.parseMessage_of_takes
      (takes_commandFrame (short args List.mem_cons_self) [])
    rw [List.append_nil, frame, longer] at whole
    have nothing := congrArg Prod.snd whole
    exact nonempty (List.append_eq_nil_iff.mp nothing).2

/-! ### Being in step -/

/-- The handler has answered `done`, it holds `pending`, and the read buffer is clear. -/
structure InStep (kv : KVStore) (done : List (List Bytes)) (pending : Bytes)
    (state : CommandHandler × ClientConnection) : Prop where
  handler : state.1 = ⟨pending, storeAfter kv done⟩
  sent : state.2.sent = answers kv done
  readBuffer : state.2.readBuffer = []

/-- In step after these bytes of the stream of commands. -/
def InStepAfter (kv : KVStore) (commands : List (List Bytes)) (received : Bytes)
    (state : CommandHandler × ClientConnection) : Prop :=
  ∃ done later pending, commands = done ++ later ∧ received = commandStream done ++ pending ∧
    Unfinished pending later ∧ InStep kv done pending state

/-- The connection is open and no write will fail. -/
structure Live (client : ClientConnection) : Prop where
  connected : client.closed = false
  noError : .error ∉ client.sends

section Round

variable {kv : KVStore} {done now later : List (List Bytes)} {pending tail chunk : Bytes}
  {state next : CommandHandler × ClientConnection}

/-- The loop of a call that finds some commands and then `tail`. -/
theorem processFed_commands (inStep : InStep kv done pending state) (live : Live state.2)
    (bytes : pending ++ chunk = commandStream now ++ tail)
    (short : ∀ args ∈ now, (commandFrame args).length ≤ 2 ^ 20) :
    ∃ fuel client, client.sent = answers kv (done ++ now) ∧ Live client ∧
      CommandHandler.processFed state.1 (state.2.withChunk chunk) =
        CommandHandler.processLoop (fuel + 1) now.length
          ⟨tail, storeAfter kv (done ++ now)⟩ client := by
  obtain ⟨handler, client⟩ := state
  obtain ⟨rfl, sent, cleared⟩ := inStep
  have fed : pending ++ (client.withChunk chunk).readBuffer = commandStream now ++ tail := by
    rw [ClientConnection.withChunk, ← bytes]
    exact congrArg (pending ++ ·) (by rw [cleared, List.nil_append])
  -- Every command takes bytes, so the fuel of the loop is enough for all of them.
  have enough := length_commandStream now
  rw [CommandHandler.processFed, CommandHandler.loopFuel]
  simp only [fed]
  obtain ⟨fuel, fuel_eq⟩ : ∃ fuel, (commandStream now ++ tail).length +
      (client.withChunk chunk).sends.length + 1 = fuel + 1 + now.length := by
    refine ⟨(commandStream now ++ tail).length + (client.withChunk chunk).sends.length -
      now.length, ?_⟩
    rw [List.length_append]
    omega
  rw [fuel_eq]
  obtain ⟨sends, clean, looped⟩ := CommandHandler.processLoop_commands (fuel + 1) 0 now tail
    (storeAfter kv done)
    { client.withChunk chunk with
      fed := (client.withChunk chunk).fed ++ (client.withChunk chunk).readBuffer }
    short live.connected live.noError
  rw [Nat.zero_add, ← storeAfter_append] at looped
  refine ⟨fuel, _, ?_, ?_, looped⟩
  · rw [answers_append, ← sent]
    rfl
  · exact ⟨live.connected, clean⟩

/-- A read that completes commands and ends at most four bytes into the next one keeps the
handler in step. -/
theorem round_clean (inStep : InStep kv done pending state) (live : Live state.2)
    (bytes : pending ++ chunk = commandStream now ++ tail)
    (short : ∀ args ∈ now, (commandFrame args).length ≤ 2 ^ 20) (completed : now ≠ [])
    (few : tail.length ≤ 4) (nonempty : chunk ≠ [])
    (fits : chunk.length ≤ ClientConnection.maxBufferSize) :
    ∃ next, round state chunk = some next ∧ InStep kv (done ++ now) tail next ∧
      Live next.2 := by
  obtain ⟨fuel, client, sent, alive, looped⟩ := processFed_commands inStep live bytes short
  -- With at most four bytes left the loop sees no header and stops.
  rw [CommandHandler.processLoop_stop (hasMessage_short few)] at looped
  have positive : now.length > 0 := List.length_pos_iff.mpr completed
  have buffered : (state.2.withChunk chunk).readBuffer ≠ [] := by
    simp [ClientConnection.withChunk, nonempty]
  have handled := (CommandHandler.handleClient_returned_iff buffered).mpr ⟨_, looped, rfl⟩
  have ran := round_of_handled live.connected nonempty
    (by rw [inStep.readBuffer, List.length_nil, Nat.zero_add]; exact fits) handled
  refine ⟨_, ran, ⟨rfl, ?_, ?_⟩, ?_⟩
  · rw [CommandHandler.Processed.consumed, if_pos positive]
    exact sent
  · rw [CommandHandler.Processed.consumed, if_pos positive]
  · rw [CommandHandler.Processed.consumed, if_pos positive]
    exact ⟨alive.connected, alive.noError⟩

/-- A read that completes no command stays in the read buffer. -/
theorem round_nothing_completed (inStep : InStep kv done pending state)
    (short : ∀ args ∈ later, (commandFrame args).length ≤ 2 ^ 20)
    (unfinished : Unfinished (pending ++ chunk) later) (ran : round state chunk = some next) :
    next.2.readBuffer ≠ [] := by
  have bytes := round_bytes ran
  have incomplete : ¬ Completes (state.1.parser ++ (state.2.readBuffer ++ chunk)) := by
    rintro ⟨-, request, rest, parsed⟩
    rw [inStep.handler, inStep.readBuffer, List.nil_append] at parsed
    exact not_takes_unfinished short unfinished request rest parsed
  rw [bytes.kept incomplete, inStep.readBuffer, List.nil_append]
  exact bytes.nonempty

theorem readHeader_unfinished (unfinished : Unfinished tail later) (long : 5 ≤ tail.length) :
    ∃ count, Parser.readHeader tail = some (MessageType.array.toByte, count) := by
  cases later with
  | nil =>
    rw [show tail = [] from unfinished] at long
    cases long
  | cons args later =>
    obtain ⟨missing, -, frame⟩ := unfinished
    have header := readHeader_commandFrame args []
    rw [List.append_nil, frame, readHeader_append_of_le long] at header
    exact ⟨_, header⟩

/-- The header of an array is consumed even when its elements are not all there. -/
theorem parseMessage_array_nullptr {buffer rest : Bytes} {count : UInt32}
    (header : Parser.readHeader buffer = some (MessageType.array.toByte, count))
    (parsed : Parser.parseMessage buffer = (.nullptr, rest)) : rest.length < buffer.length := by
  have long := readHeader_some header
  rw [Parser.parseMessage_eq, Parser.parseBody_array _ header] at parsed
  have shorter := Parser.parseElements_length Parser.parseMessage Parser.parseMessage_length
    count.toNat [] (buffer.drop 5)
  rw [parsed, List.length_drop] at shorter
  change rest.length ≤ _ at shorter
  omega

/-- A read that ends five bytes or more into a command loses its header. -/
theorem round_header_lost (inStep : InStep kv done pending state) (live : Live state.2)
    (bytes : pending ++ chunk = commandStream now ++ tail)
    (short : ∀ args ∈ now ++ later, (commandFrame args).length ≤ 2 ^ 20)
    (unfinished : Unfinished tail later) (long : 5 ≤ tail.length)
    (ran : round state chunk = some next) :
    next.1.parser ≠ tail := by
  obtain ⟨fuel, client, -, -, looped⟩ := processFed_commands inStep live bytes
    fun args listed => short args (List.mem_append_left _ listed)
  obtain ⟨-, nonempty, -, handled⟩ := round_inv ran
  have buffered : (state.2.withChunk chunk).readBuffer ≠ [] := by
    simp [ClientConnection.withChunk, nonempty]
  obtain ⟨processed, looped', result⟩ :=
    (CommandHandler.handleClient_returned_iff buffered).mp handled
  rw [looped] at looped'
  obtain ⟨count, header⟩ := readHeader_unfinished unfinished long
  have present := hasMessage_array header
  -- The tail has a header but no message: the parser takes the header and gives up.
  rcases parsed : Parser.parseMessage tail with ⟨request | _ | _, rest⟩
  · exact absurd parsed (not_takes_unfinished
      (fun args listed => short args (List.mem_append_right _ listed)) unfinished request rest)
  · rw [CommandHandler.processLoop_incomplete present parsed] at looped'
    cases looped'
    simp only [Prod.mk.injEq] at result
    rw [result.2.1]
    intro same
    have shorter := parseMessage_array_nullptr header parsed
    rw [show rest = tail from same] at shorter
    exact absurd shorter (lt_irrefl _)
  · rw [CommandHandler.processLoop, if_pos present, parsed] at looped'
    cases looped'

end Round

/-! ### Clean cuts -/

/-- The bytes `before` end at most four bytes into a command, and so do they with `chunk`,
which completes at least one command. -/
def CleanRead (commands : List (List Bytes)) (before chunk : Bytes) : Prop :=
  ∃ done now later pending tail, commands = done ++ (now ++ later) ∧ now ≠ [] ∧
    before = commandStream done ++ pending ∧ Unfinished pending (now ++ later) ∧
    pending.length ≤ 4 ∧
    before ++ chunk = commandStream (done ++ now) ++ tail ∧ Unfinished tail later ∧
    tail.length ≤ 4

/-- Every read of the stream is clean. -/
def CleanCuts (commands : List (List Bytes)) (chunks : List Bytes) : Prop :=
  ∀ before chunk after, chunks = before ++ chunk :: after →
    CleanRead commands before.flatten chunk

/-- The handler is in step before, between and after the reads. -/
def InStepThroughout (kv : KVStore) (commands : List (List Bytes))
    (state : CommandHandler × ClientConnection) (chunks : List Bytes) : Prop :=
  ∀ before after, chunks = before ++ after →
    ∃ reached, rounds state before = some reached ∧
      InStepAfter kv commands before.flatten reached

section Read

variable {kv : KVStore} {commands done later : List (List Bytes)} {pending chunk rest : Bytes}
  {state : CommandHandler × ClientConnection}

/-- What is known between two reads. -/
structure Between (kv : KVStore) (commands done later : List (List Bytes)) (pending rest : Bytes)
    (state : CommandHandler × ClientConnection) : Prop where
  split : commands = done ++ later
  short : ∀ args ∈ commands, (commandFrame args).length ≤ 2 ^ 20
  unfinished : Unfinished pending later
  few : pending.length ≤ 4
  stream : pending ++ rest = commandStream later
  inStep : InStep kv done pending state
  live : Live state.2

/-- After a clean read the same is known of the rest of the stream. -/
theorem Between.clean (between : Between kv commands done later pending (chunk ++ rest) state)
    (nonempty : chunk ≠ []) (fits : chunk.length ≤ ClientConnection.maxBufferSize)
    (clean : CleanRead commands (commandStream done ++ pending) chunk) :
    ∃ next now later' pending', round state chunk = some next ∧
      commandStream done ++ pending ++ chunk = commandStream (done ++ now) ++ pending' ∧
      Between kv commands (done ++ now) later' pending' rest next := by
  obtain ⟨done', now, later', pending', tail, split, completed, before, unfinished, -, bytes,
    unfinished', few⟩ := clean
  obtain ⟨rfl, rfl, rfl⟩ := split_unique (between.split.symm.trans split) before
    between.unfinished unfinished
  have here : pending ++ chunk = commandStream now ++ tail := by
    rw [commandStream_append, List.append_assoc, List.append_assoc,
      List.append_cancel_left_eq] at bytes
    exact bytes
  have short : ∀ args ∈ now, (commandFrame args).length ≤ 2 ^ 20 := by
    intro args listed
    apply between.short
    rw [split]
    exact List.mem_append_right _ (List.mem_append_left _ listed)
  obtain ⟨next, ran, inStep, live⟩ :=
    round_clean between.inStep between.live here short completed few nonempty fits
  -- The rest of the stream continues what the read left unfinished.
  have stream := between.stream
  rw [← List.append_assoc, here, commandStream_append, List.append_assoc,
    List.append_cancel_left_eq] at stream
  refine ⟨next, now, later', tail, ran, bytes, ?_⟩
  exact ⟨by rw [split, List.append_assoc], between.short, unfinished', few, stream, inStep, live⟩

/-- After any other read the handler is out of step. -/
theorem Between.not_clean (between : Between kv commands done later pending (chunk ++ rest) state)
    (unclean : ¬ CleanRead commands (commandStream done ++ pending) chunk)
    {next : CommandHandler × ClientConnection} (ran : round state chunk = some next) :
    ¬ InStepAfter kv commands (commandStream done ++ pending ++ chunk) next := by
  rintro ⟨done', left, pending', split', received, unfinished', inStep⟩
  have stream := between.stream
  rw [← List.append_assoc] at stream
  obtain ⟨now, later', tail, rfl, here, unfinished⟩ := split_commandStream stream
  have bytes : commandStream done ++ pending ++ chunk = commandStream (done ++ now) ++ tail := by
    rw [commandStream_append, List.append_assoc, List.append_assoc, here]
  have split : commands = (done ++ now) ++ later' := by
    rw [between.split, List.append_assoc]
  obtain ⟨rfl, rfl, rfl⟩ := split_unique (split.symm.trans split') (bytes.symm.trans received)
    unfinished unfinished'
  have short : ∀ args ∈ now ++ later', (commandFrame args).length ≤ 2 ^ 20 := by
    intro args listed
    apply between.short
    rw [between.split]
    exact List.mem_append_right _ listed
  -- The read completes nothing, or it ends five bytes or more into a command.
  by_cases completed : now = []
  · subst completed
    have nothing : Unfinished (pending ++ chunk) later' := by
      rw [here]
      exact unfinished
    exact round_nothing_completed between.inStep
      (fun args listed => short args (List.mem_append_right _ listed)) nothing ran
      inStep.readBuffer
  · have long : 5 ≤ tail.length := by
      by_contra few
      exact unclean ⟨done, now, later', pending, tail, between.split, completed, rfl,
        between.unfinished, between.few, bytes, unfinished, by omega⟩
    exact round_header_lost between.inStep between.live here short unfinished long ran
      (by rw [inStep.handler])

theorem Between.inStepAfter (between : Between kv commands done later pending rest state) :
    InStepAfter kv commands (commandStream done ++ pending) state :=
  ⟨done, later, pending, between.split, rfl, between.unfinished, between.inStep⟩

end Read

/-! ### Runs -/

section Run

variable {kv : KVStore} {commands done later : List (List Bytes)} {pending : Bytes}
  {chunks : List Bytes} {state : CommandHandler × ClientConnection}

/-- The reads from here on, after the bytes `received`. -/
def CleanFrom (commands : List (List Bytes)) (received : Bytes) (chunks : List Bytes) : Prop :=
  ∀ before chunk after, chunks = before ++ chunk :: after →
    CleanRead commands (received ++ before.flatten) chunk

def InStepFrom (kv : KVStore) (commands : List (List Bytes)) (received : Bytes)
    (state : CommandHandler × ClientConnection) (chunks : List Bytes) : Prop :=
  ∀ before after, chunks = before ++ after →
    ∃ reached, rounds state before = some reached ∧
      InStepAfter kv commands (received ++ before.flatten) reached

theorem cleanFrom_cons (received chunk : Bytes) :
    CleanFrom commands received (chunk :: chunks) ↔
      CleanRead commands received chunk ∧ CleanFrom commands (received ++ chunk) chunks := by
  rw [CleanFrom, forall_append_cons_cons, List.flatten_nil, List.append_nil]
  simp only [List.flatten_cons, ← List.append_assoc]
  rfl

theorem inStepFrom_cons {received chunk : Bytes} {next : CommandHandler × ClientConnection}
    (here : InStepAfter kv commands received state) (ran : round state chunk = some next) :
    InStepFrom kv commands received state (chunk :: chunks) ↔
      InStepFrom kv commands (received ++ chunk) next chunks := by
  have now : ∃ reached, rounds state [] = some reached ∧
      InStepAfter kv commands (received ++ [].flatten) reached := by
    refine ⟨state, rfl, ?_⟩
    rwa [List.flatten_nil, List.append_nil]
  rw [InStepFrom, forall_append_cons, and_iff_right now]
  simp only [rounds_cons ran, List.flatten_cons, ← List.append_assoc]
  rfl

/-- The handler stays in step through exactly the clean reads. -/
theorem inStepFrom_iff (between : Between kv commands done later pending chunks.flatten state)
    (nonempty : ∀ chunk ∈ chunks, chunk ≠ [])
    (fits : chunks.flatten.length ≤ ClientConnection.maxBufferSize) :
    InStepFrom kv commands (commandStream done ++ pending) state chunks ↔
      CleanFrom commands (commandStream done ++ pending) chunks := by
  induction chunks generalizing done later pending state with
  | nil =>
    constructor
    · intro _ before chunk after split
      cases before <;> cases split
    · intro _ before after split
      obtain ⟨rfl, -⟩ := List.append_eq_nil_iff.mp split.symm
      refine ⟨state, rfl, ?_⟩
      rw [List.flatten_nil, List.append_nil]
      exact between.inStepAfter
  | cons chunk chunks ih =>
    rw [List.flatten_cons] at between fits
    rw [List.length_append] at fits
    rw [List.forall_mem_cons] at nonempty
    rw [cleanFrom_cons]
    by_cases clean : CleanRead commands (commandStream done ++ pending) chunk
    · obtain ⟨next, now, later', pending', ran, bytes, between'⟩ :=
        between.clean nonempty.1 (by omega) clean
      rw [inStepFrom_cons between.inStepAfter ran, and_iff_right clean, bytes]
      exact ih between' nonempty.2 (by omega)
    -- The first unclean read is the one that the handler does not survive in step.
    · constructor
      · intro inStep
        obtain ⟨reached, ran, good⟩ := inStep [chunk] chunks rfl
        obtain ⟨next, first, last⟩ := rounds_cons_inv ran
        cases last
        rw [List.flatten_cons, List.flatten_nil, List.append_nil] at good
        exact absurd good (between.not_clean clean first)
      · rintro ⟨first, -⟩
        exact absurd first clean

end Run

/-- What is known when a client has just connected. -/
theorem between_accept (kv : KVStore) {commands : List (List Bytes)} {chunks : List Bytes}
    {sends : List SendResult} (stream : chunks.flatten = commandStream commands)
    (fits : chunks.flatten.length ≤ ClientConnection.maxBufferSize) (noError : .error ∉ sends) :
    Between kv commands [] commands [] chunks.flatten (⟨[], kv⟩, .accept sends) where
  split := rfl
  short := by
    intro args listed
    have := length_commandFrame_le listed
    rw [← stream] at this
    exact this.trans fits
  unfinished := by
    cases commands with
    | nil => rfl
    | cons args commands =>
      have nonempty : commandFrame args ≠ [] := by
        have := five_le_commandFrame args
        exact List.ne_nil_of_length_pos (by omega)
      exact ⟨commandFrame args, nonempty, rfl⟩
  few := by simp
  stream := stream
  inStep := ⟨rfl, rfl, rfl⟩
  live := ⟨rfl, noError⟩

/-- **Cuts of the stream.** A client of a handler with an empty parser sends commands in any
number of non-empty reads, at most 1 MiB in all, and every write succeeds. The handler is in
step throughout exactly when every read is clean. Then the client gets the answers to the
commands executed one after another, and the parser ends up empty. -/
theorem serve_cleanCuts (kv : KVStore) (commands : List (List Bytes)) (chunks : List Bytes)
    (sends : List SendResult) (stream : chunks.flatten = commandStream commands)
    (nonempty : ∀ chunk ∈ chunks, chunk ≠ [])
    (fits : chunks.flatten.length ≤ ClientConnection.maxBufferSize) (noError : .error ∉ sends) :
    (InStepThroughout kv commands (⟨[], kv⟩, .accept sends) chunks ↔ CleanCuts commands chunks) ∧
      (CleanCuts commands chunks →
        TcpServer.serve ⟨[], kv⟩ ⟨chunks, sends⟩ =
          .returned (answers kv commands, ⟨[], storeAfter kv commands⟩)) := by
  have between := between_accept kv stream fits noError
  have inStep := inStepFrom_iff between nonempty fits
  refine ⟨inStep, fun clean => ?_⟩
  obtain ⟨⟨handler, client⟩, ran, done, later, pending, split, received, unfinished, good⟩ :=
    inStep.mpr clean chunks [] (List.append_nil chunks).symm
  have all : commandStream commands ++ [] = commandStream done ++ pending := by
    rw [List.append_nil, ← stream]
    exact received
  -- At the end of the stream every command is done, and nothing is left over.
  have whole : commands ++ [] = done ++ later := by rw [List.append_nil, split]
  obtain ⟨rfl, -, rfl⟩ := split_unique whole all rfl unfinished
  rw [TcpServer.serve, handleClient_of_rounds ran]
  have sent : client.close.sent = client.sent := by
    rw [ClientConnection.close]
    split <;> rfl
  have answered : client.sent = answers kv commands := good.sent
  have emptied : handler = ⟨[], storeAfter kv commands⟩ := good.handler
  simp only [sent, answered, emptied]

/-- Three commands in two reads. The first read ends four bytes into the second command. -/
def cutCommands : List (List Bytes) :=
  [[text "PING"], [text "SET", text "a", text "1"], [text "GET", text "a"]]

def cutReads : List Bytes :=
  [(commandStream cutCommands).take 18, (commandStream cutCommands).drop 18]

theorem serve_cleanCuts_cut :
    cutReads.flatten = commandStream cutCommands ∧ (∀ chunk ∈ cutReads, chunk ≠ []) ∧
      cutReads.flatten.length ≤ ClientConnection.maxBufferSize ∧
      (InStepThroughout .initial cutCommands (⟨[], .initial⟩, .accept []) cutReads ↔
        CleanCuts cutCommands cutReads) ∧
      (CleanCuts cutCommands cutReads →
        TcpServer.serve ⟨[], .initial⟩ ⟨cutReads, []⟩ =
          .returned (answers .initial cutCommands, ⟨[], storeAfter .initial cutCommands⟩)) :=
  ⟨rfl, by decide, by decide,
    serve_cleanCuts .initial cutCommands cutReads [] rfl (by decide) (by decide) List.not_mem_nil⟩

/-- The first byte of a PING arrives alone: the client gets no answer. -/
theorem cut_frame_unanswered :
    [(commandFrame [text "PING"]).take 1, (commandFrame [text "PING"]).drop 1].flatten =
        commandStream [[text "PING"]] ∧
      ∀ handler, TcpServer.serve ⟨[], .initial⟩
          ⟨[(commandFrame [text "PING"]).take 1, (commandFrame [text "PING"]).drop 1], []⟩ ≠
        .returned (answers .initial [[text "PING"]], handler) := by
  refine ⟨by decide, fun handler served => ?_⟩
  have silent : (TcpServer.serve ⟨[], .initial⟩ ⟨[(commandFrame [text "PING"]).take 1,
      (commandFrame [text "PING"]).drop 1], []⟩).result?.map Prod.fst = some [] := by decide
  rw [served] at silent
  have nothing : answers .initial [[text "PING"]] = [] := Option.some.inj silent
  exact absurd nothing (by decide)

end ScuffedRedis
