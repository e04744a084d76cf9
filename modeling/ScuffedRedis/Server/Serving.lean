import ScuffedRedis.Server.Framing
import ScuffedRedis.Server.KvLedger

/-!
# The server and its clients

One client after another sends whole commands. Each gets one answer for each of its commands, in
their order, and all answers together are those of one finite map with counters that has seen the
commands of the earlier clients first.
-/
namespace ScuffedRedis

open Protocol Foundation KVStore

/-! ### Commands off the wire -/

/-- The answer to a command that was sent as an array of strings. An empty array is no command. -/
inductive CommandSpec (ledger : Ledger) : List Bytes → Message → Ledger → Prop
  | invalid : CommandSpec ledger [] (errorResponse (text "ERR invalid command format"))
      ledger.receive
  | command {args answer next} : args ≠ [] → Answers ledger.receive args answer next →
      CommandSpec ledger args answer (ledger.receive.note args next)

theorem execute_keeps (kv : KVStore) (ledger : Ledger) (args : List Bytes)
    (keeps : Keeps kv ledger) :
    ∃ next, CommandSpec ledger args (execute kv args).1 next ∧ Keeps (execute kv args).2 next := by
  obtain ⟨next, answered, kept⟩ := executeCommand_keeps keeps (makeCommand args)
  refine ⟨next, ?_, kept⟩
  change LedgerSpec ledger (.executeCommand (makeCommand args)) (.response (execute kv args).1) next
    at answered
  generalize (execute kv args).1 = answer at answered
  -- What the server reads is the command that was sent.
  cases answered with
  | invalid empty =>
    rw [parseCommand_makeCommand] at empty
    subst empty
    exact .invalid
  | command given answered =>
    rw [parseCommand_makeCommand] at given answered ⊢
    exact .command given answered

/-! ### One command at a time -/

/-- The server has answered every command so far, and its table is the map. -/
structure UpToDate (server : CommandHandler × ClientConnection) (m : KeyMap)
    (done : List (List Bytes)) : Prop where
  inStep : InStep .initial done [] server
  live : Live server.2
  refines : HashTable.Refines (storeAfter .initial done).store m

theorem upToDate_accept {sends : List SendResult} (noError : .error ∉ sends) :
    UpToDate (⟨[], .initial⟩, .accept sends) ∅ [] where
  inStep := ⟨rfl, rfl, rfl⟩
  live := ⟨rfl, noError⟩
  refines := KVStore.initial_refines

variable {server : CommandHandler × ClientConnection} {m : KeyMap} {done : List (List Bytes)}
  {args : List Bytes}

/-- A command that comes in one read is answered at once. -/
theorem UpToDate.serve (upToDate : UpToDate server m done) (nonempty : args ≠ [])
    (fits : (commandFrame args).length ≤ 4096) :
    ∃ next m', round server (commandFrame args) = some next ∧
      next.2.sent = server.2.sent ++ (execute (storeAfter .initial done) args).1.serialize ∧
      KvSpec m args (execute (storeAfter .initial done) args).1 m' ∧
      UpToDate next m' (done ++ [args]) := by
  have long := five_le_commandFrame args
  have small : (commandFrame args).length ≤ ClientConnection.maxBufferSize :=
    fits.trans (by decide)
  have bytes : [] ++ commandFrame args = commandStream [args] ++ [] := by
    rw [commandStream_cons, commandStream_nil, List.nil_append, List.append_nil, List.append_nil]
  have short : ∀ command ∈ [args], (commandFrame command).length ≤ 2 ^ 20 :=
    List.forall_mem_singleton.mpr small
  obtain ⟨next, ran, inStep, live⟩ := round_clean upToDate.inStep upToDate.live bytes short
    (List.cons_ne_nil _ _) (Nat.zero_le 4) (List.ne_nil_of_length_pos (by omega)) small
  have command : parseCommand (makeCommand args) ≠ [] := by
    rwa [parseCommand_makeCommand]
  have executed := executeCommand_eq (storeAfter .initial done) command
  rw [parseCommand_makeCommand] at executed
  obtain ⟨m', answered, refines⟩ := executeRaw_refines
    { storeAfter .initial done with
      commandsProcessed := (storeAfter .initial done).commandsProcessed + 1 }
    m args upToDate.refines
  rw [← executed] at answered refines
  refine ⟨next, m', ran, ?_, answered, inStep, live, ?_⟩
  · rw [inStep.sent, upToDate.inStep.sent, answers_append, answers_cons, answers_nil,
      List.append_nil]
  · rw [storeAfter_append]
    exact refines

/-! ### Clients -/

/-- The commands that a client wants to send, and what happens on its connection. -/
structure Client where
  commands : List (List Bytes)
  session : TcpServer.Session

/-- The client sends its commands and nothing else, at most 1 MiB, the reads of the server are
clean, and the client takes every answer. -/
structure Client.Orderly (client : Client) : Prop where
  stream : client.session.chunks.flatten = commandStream client.commands
  nonempty : ∀ chunk ∈ client.session.chunks, chunk ≠ []
  fits : client.session.chunks.flatten.length ≤ ClientConnection.maxBufferSize
  clean : CleanCuts client.commands client.session.chunks
  noError : .error ∉ client.session.sends

/-- An orderly client gets the answers to its commands, and leaves nothing in the parser. -/
theorem serve_orderly (kv : KVStore) {client : Client} (orderly : client.Orderly) :
    TcpServer.serve ⟨[], kv⟩ client.session =
      .returned (answers kv client.commands, ⟨[], storeAfter kv client.commands⟩) := by
  have between := between_accept kv orderly.stream orderly.fits orderly.noError
  have inStep := (inStepFrom_iff between orderly.nonempty orderly.fits).mpr orderly.clean
  obtain ⟨⟨handler, connection⟩, ran, done, later, pending, split, received, unfinished, good⟩ :=
    inStep client.session.chunks [] (List.append_nil _).symm
  -- The whole stream has arrived, so every command is done and nothing is pending.
  have bytes : commandStream client.commands ++ [] = commandStream done ++ pending := by
    rw [List.append_nil, ← orderly.stream]
    exact received
  have whole : client.commands ++ [] = done ++ later := by rw [List.append_nil, split]
  obtain ⟨rfl, -, rfl⟩ := split_unique whole bytes rfl unfinished
  have sent : connection.close.sent = answers kv client.commands := by
    rw [ClientConnection.close]
    split <;> exact good.sent
  rw [TcpServer.serve, handleClient_of_rounds ran]
  simp only [sent, show handler = _ from good.handler]

theorem runBlocking_cons {handler next last : CommandHandler} {session : TcpServer.Session}
    {sessions : List TcpServer.Session} {sent : Bytes} {others : List Bytes}
    (served : TcpServer.serve handler session = .returned (sent, next))
    (rest : TcpServer.runBlocking sessions next = .returned (others, last)) :
    TcpServer.runBlocking (session :: sessions) handler = .returned (sent :: others, last) := by
  rw [TcpServer.runBlocking, served]
  simp only [rest]

/-- From any store on, with the books that it keeps. -/
theorem runBlocking_from {kv : KVStore} {ledger : Ledger} (keeps : Keeps kv ledger)
    (clients : List Client) (orderly : ∀ client ∈ clients, client.Orderly) :
    ∃ (replies : List (List Message)) (last : KVStore) (ledger' : Ledger),
      TcpServer.runBlocking (clients.map Client.session) ⟨[], kv⟩ =
        .returned (replies.map (·.flatMap Message.serialize), ⟨[], last⟩) ∧
      replies.map List.length = clients.map (·.commands.length) ∧
      SpecRun CommandSpec ledger (clients.flatMap Client.commands) replies.flatten ledger' ∧
      Keeps last ledger' := by
  induction clients generalizing kv ledger with
  | nil => exact ⟨[], kv, ledger, rfl, rfl, .nil ledger, keeps⟩
  | cons client clients ih =>
    rw [List.forall_mem_cons] at orderly
    obtain ⟨middle, answered, kept⟩ := runInputs_simulates Keeps execute_keeps keeps client.commands
    obtain ⟨replies, last, ledger', ran, counted, others, final⟩ := ih kept orderly.2
    refine ⟨(runInputs execute kv client.commands).1 :: replies, last, ledger', ?_, ?_, ?_, final⟩
    · exact runBlocking_cons (serve_orderly kv orderly.1) ran
    · rw [List.map_cons, List.map_cons, counted, length_runInputs]
    · rw [List.flatMap_cons, List.flatten_cons]
      exact answered.append others

/-- **The server is one finite map for all its clients.** If every client is orderly, the server
serves them all. Each gets one answer for each of its commands, and the answers are those of a
single finite map with counters to the commands of all clients, one client after the other. -/
theorem runBlocking_serves (clients : List Client) (orderly : ∀ client ∈ clients, client.Orderly) :
    ∃ (replies : List (List Message)) (last : KVStore) (ledger : Ledger),
      TcpServer.runBlocking (clients.map Client.session) ⟨[], .initial⟩ =
        .returned (replies.map (·.flatMap Message.serialize), ⟨[], last⟩) ∧
      replies.map List.length = clients.map (·.commands.length) ∧
      SpecRun CommandSpec .empty (clients.flatMap Client.commands) replies.flatten ledger ∧
      Keeps last ledger :=
  runBlocking_from initial_keeps clients orderly

/-- A client that sets a key in one read, and one that reads it in another. -/
def setter : Client where
  commands := [[text "SET", text "a", text "1"]]
  session := ⟨[commandFrame [text "SET", text "a", text "1"]], []⟩

def getter : Client where
  commands := [[text "GET", text "a"]]
  session := ⟨[commandFrame [text "GET", text "a"]], []⟩

/-- A client whose only command arrives in one read. -/
theorem orderly_one {args : List Bytes} (fits : (commandFrame args).length ≤ 2 ^ 20) :
    Client.Orderly ⟨[args], ⟨[commandFrame args], []⟩⟩ where
  stream := by rw [commandStream_cons, commandStream_nil, List.flatten_cons, List.flatten_nil]
  nonempty := by
    intro chunk listed
    obtain rfl := List.mem_singleton.mp listed
    have := five_le_commandFrame args
    exact List.ne_nil_of_length_pos (by omega)
  fits := by rwa [List.flatten_cons, List.flatten_nil, List.append_nil]
  clean := by
    intro before chunk after split
    obtain ⟨rfl, rfl, -⟩ : before = [] ∧ commandFrame args = chunk ∧ after = [] := by
      cases before with
      | nil => simpa using split
      | cons => simp at split
    have := five_le_commandFrame args
    have nonempty : commandFrame args ≠ [] := List.ne_nil_of_length_pos (by omega)
    exact ⟨[], [args], [], [], [], rfl, by simp, rfl, ⟨commandFrame args, nonempty, rfl⟩, by simp,
      by simp, rfl, by simp⟩
  noError := List.not_mem_nil

theorem runBlocking_serves_two :
    (∀ client ∈ [setter, getter], client.Orderly) ∧
      ∃ (replies : List (List Message)) (last : KVStore) (ledger : Ledger),
        TcpServer.runBlocking ([setter, getter].map Client.session) ⟨[], .initial⟩ =
          .returned (replies.map (·.flatMap Message.serialize), ⟨[], last⟩) ∧
        replies.map List.length = [setter, getter].map (·.commands.length) ∧
        SpecRun CommandSpec .empty ([setter, getter].flatMap Client.commands) replies.flatten
          ledger ∧
        Keeps last ledger := by
  have orderly : ∀ client ∈ [setter, getter], client.Orderly := by
    intro client listed
    simp only [List.mem_cons, List.not_mem_nil, or_false] at listed
    rcases listed with rfl | rfl
    · exact orderly_one (by decide)
    · exact orderly_one (by decide)
  exact ⟨orderly, runBlocking_serves [setter, getter] orderly⟩

end ScuffedRedis
