import ScuffedRedis.Client.Interactive
import ScuffedRedis.Client.RedisCalls

/-!
# Sessions of the interactive client

A client that is connected to the server runs its loop. While every command and every reply gets
through, the session shows what a finite map with counters answers to the commands that were typed.
A command has to fit one read of the server, that is 4096 bytes with its header.

The `connect` of `main` waits for the server to write, so it fails against this one. The client
here is one that has connected without a time limit.
-/
namespace ScuffedRedis
namespace RedisClient

open Foundation Protocol KVStore

/-! ### The session as it should be -/

def greeting : Bytes :=
  text "Type 'help' for commands, 'quit' to exit\n" ++ List.replicate 40 0x3D ++ [0x0A]

def prompt : Bytes := text "127.0.0.1:6380> "

/-- The lines of the help, with the explanations in one column. -/
def manualLines (entries : List (String × String)) : Bytes :=
  entries.flatMap fun entry =>
    text "  " ++ (text entry.1).rightpad 19 0x20 ++ text "- " ++ text entry.2 ++ [0x0A]

def manual : Bytes :=
  text "\nRedis Commands:\n" ++
    manualLines [("SET key value", "Set a key to a value"), ("GET key", "Get value of a key"),
      ("DEL key [key ...]", "Delete one or more keys"), ("EXISTS key [...]", "Check if keys exist"),
      ("KEYS pattern", "Find keys matching pattern"), ("PING [message]", "Test connection"),
      ("ECHO message", "Echo a message"), ("FLUSHDB", "Clear all keys"),
      ("DBSIZE", "Get number of keys"), ("INFO", "Get server information")] ++
    text "\nClient Commands:\n" ++
    manualLines [("help", "Show this help"), ("quit/exit", "Exit the client")] ++ [0x0A]

/-- What a session shows, by the books that the server should keep. -/
inductive Shows : Ledger → List Bytes → Bytes → Ledger → Prop
  | eof (ledger) : Shows ledger [] prompt ledger
  | leave {ledger line rest} : Means line .leave →
      Shows ledger (line :: rest) (prompt ++ text "Goodbye!\n") ledger
  | skip {ledger line rest shown last} : Means line .skip → Shows ledger rest shown last →
      Shows ledger (line :: rest) (prompt ++ shown) last
  | help {ledger line rest shown last} : Means line .help → Shows ledger rest shown last →
      Shows ledger (line :: rest) (prompt ++ manual ++ shown) last
  | command {ledger next last line args answer displayed rest shown} :
      Means line (.command args) → CommandSpec ledger args answer next →
      Displays (some answer) displayed → Shows next rest shown last →
      Shows ledger (line :: rest) (prompt ++ displayed ++ [0x0A] ++ shown) last

/-- A command during which the network does its part: it gets to the server in one read, and what
the server writes is the reply, which gets back in time. -/
structure Conveyed (server : CommandHandler × ClientConnection) (args : List Bytes)
    (exchange : Exchange) (next : CommandHandler × ClientConnection) : Prop where
  fits : (commandFrame args).length ≤ bufferSize
  taken : exchange.taken = true
  served : round server (commandFrame args) = some next
  wrote : next.2.sent = server.2.sent ++ exchange.reply.serialize
  built : exchange.reply.Encodable
  arrives : Arrives exchange.reply 0 exchange.receives

/-- What happens on the connection during the session is what the server makes of it. -/
inductive Supplied : CommandHandler × ClientConnection → List (Bytes × Exchange) →
    CommandHandler × ClientConnection → Prop
  | eof (server) : Supplied server [] server
  | leave {server line exchange rest} : Means line .leave →
      Supplied server ((line, exchange) :: rest) server
  | idle {server last line exchange rest} : Means line .skip ∨ Means line .help →
      Supplied server rest last → Supplied server ((line, exchange) :: rest) last
  | command {server next last line args exchange rest} : Means line (.command args) →
      Conveyed server args exchange next → Supplied next rest last →
      Supplied server ((line, exchange) :: rest) last

theorem helpText_eq : helpText = manual := by decide +kernel

theorem introduction_eq : introduction = greeting := rfl

/-! ### Lines that are commands -/

theorem means_command_ne_nil {line : Bytes} {args : List Bytes}
    (command : Means line (.command args)) : args ≠ [] := by
  cases command with
  | command _ _ nonempty => exact nonempty

theorem commandLine_head {args : List Bytes} (nonempty : args ≠ []) :
    ∃ rest, commandLine args = 0x22 :: rest := by
  cases args with
  | nil => exact absurd rfl nonempty
  | cons arg rest => cases rest <;> exact ⟨_, rfl⟩

theorem commandLine_last {args : List Bytes} (nonempty : args ≠ []) :
    ∃ front, commandLine args = front ++ [0x22] := by
  induction args using commandLine.induct with
  | case1 => exact absurd rfl nonempty
  | case2 arg => exact ⟨0x22 :: arg.flatMap escape, rfl⟩
  | case3 arg next rest ih =>
    obtain ⟨front, same⟩ := ih (List.cons_ne_nil _ _)
    exact ⟨quote arg ++ 0x20 :: front, by rw [commandLine, same]; simp⟩

/-- A line that starts and ends with a quote stays as it is. -/
theorem trim_commandLine {args : List Bytes} (nonempty : args ≠ []) :
    trim (commandLine args) = commandLine args := by
  have blank : ¬ isBlank 0x22 = true := by decide
  obtain ⟨rest, head⟩ := commandLine_head nonempty
  obtain ⟨front, last⟩ := commandLine_last nonempty
  rw [trim, head, List.dropWhile_cons_of_neg blank, ← head, last]
  exact List.rdropWhile_concat_neg _ _ _ blank

/-- What is typed between quotes is sent as it is, if every argument has a character. -/
theorem means_commandLine {args : List Bytes} (nonempty : args ≠ []) (filled : [] ∉ args) :
    Means (commandLine args) (.command args) := by
  -- Between quotes only an empty argument is lost, and there is none.
  have read : parseCommandLine (commandLine args) = args := by
    rw [parseCommandLine_commandLine, List.filter_eq_self]
    intro arg member
    have differs : arg ≠ [] := fun empty => filled (empty ▸ member)
    exact decide_eq_true differs
  -- The line starts with a quote, unlike the words that the client keeps for itself.
  have apart (literal : Bytes) (other : literal.head? ≠ some 0x22) :
      commandLine args ≠ literal := by
    obtain ⟨rest, head⟩ := commandLine_head nonempty
    rintro rfl
    rw [head] at other
    exact other rfl
  have own : commandLine args ∉ [text "quit", text "exit", text "help"] := by
    rw [List.mem_cons, List.mem_pair, not_or, not_or]
    exact ⟨apart _ (by decide), apart _ (by decide), apart _ (by decide)⟩
  rw [means_iff, typed_other (trim_commandLine nonempty) own, ← parseCommandLine_eq, read,
    if_neg nonempty]

/-! ### Sessions -/

/-- What holds between two commands: client and server are linked, and the server keeps books. -/
structure Attached (redis : RedisClient) (server : CommandHandler × ClientConnection)
    (ledger : Ledger) (done : List (List Bytes)) : Prop where
  linked : Linked ⟨redis, server⟩ ledger.map done
  keeps : Keeps (storeAfter .initial done) ledger

variable {redis : RedisClient} {server next last : CommandHandler × ClientConnection}
  {ledger : Ledger} {done : List (List Bytes)}

/-- The client returns the answer that the books give, and it can be shown. -/
theorem Attached.command {args : List Bytes} {exchange : Exchange}
    (attached : Attached redis server ledger done) (nonempty : args ≠ [])
    (conveyed : Conveyed server args exchange next) :
    ∃ answer redis' ledger', redis.execute args exchange = some (answer, redis') ∧
      answer.Encodable ∧ CommandSpec ledger args answer ledger' ∧
      Attached redis' next ledger' (done ++ [args]) := by
  obtain ⟨taken, reply, receives⟩ := exchange
  obtain ⟨fits, rfl, served, wrote, built, arrives⟩ := conveyed
  obtain ⟨redis', m', executed, -, answerable, linked⟩ :=
    attached.linked.exchange nonempty fits served wrote built arrives
  obtain ⟨ledger', answered, kept⟩ :=
    execute_keeps (storeAfter .initial done) ledger args attached.keeps
  -- The server is left with the store that the books are of.
  have after : storeAfter .initial (done ++ [args]) =
      (ScuffedRedis.execute (storeAfter .initial done) args).2 := storeAfter_append _ _ _
  rw [← after] at kept
  exact ⟨_, redis', ledger', executed, answerable, answered,
    { linked with refines := kept.refines }, kept⟩

theorem Attached.connected (attached : Attached redis server ledger done) :
    redis.client.connected = true := attached.linked.connected

/-- The loop, from any books on. -/
theorem Attached.loop {inputs : List (Bytes × Exchange)}
    (attached : Attached redis server ledger done) (supplied : Supplied server inputs last) :
    ∃ shown redis' ledger' done', interactiveLoop redis inputs = some (shown, redis') ∧
      Shows ledger (inputs.map Prod.fst) shown ledger' ∧
      Attached redis' last ledger' done' := by
  have connected : ¬ redis.client.connected = false := by simp [attached.connected]
  -- The induction follows what the connection does, which has one case for each kind of line.
  induction supplied generalizing redis ledger done with
  | eof =>
    refine ⟨prompt, redis, ledger, done, ?_, .eof ledger, attached⟩
    rw [interactiveLoop, if_neg connected]
    rfl
  | leave leaves =>
    refine ⟨_, redis, ledger, done, ?_, .leave leaves, attached⟩
    rw [interactiveLoop, if_neg connected, (means_iff _ _).mp leaves]
    rfl
  | idle idles _ ih =>
    obtain ⟨shown, redis', ledger', done', looped, shows, attached'⟩ := ih attached connected
    rcases idles with skips | helps
    · refine ⟨_, redis', ledger', done', ?_, .skip skips shows, attached'⟩
      rw [interactiveLoop, if_neg connected, (means_iff _ _).mp skips]
      simp only [looped, Option.map_some, Prod.map, id]
      rfl
    · refine ⟨_, redis', ledger', done', ?_, .help helps shows, attached'⟩
      rw [interactiveLoop, if_neg connected, (means_iff _ _).mp helps]
      simp only [looped, Option.map_some, Prod.map, id, helpText_eq]
      rfl
  | command command conveyed _ ih =>
    obtain ⟨answer, middle, ledger₁, executed, built, answered, attached₁⟩ :=
      attached.command (means_command_ne_nil command) conveyed
    obtain ⟨shown, redis', ledger', done', looped, shows, attached'⟩ :=
      ih attached₁ (by simp [attached₁.connected])
    refine ⟨_, redis', ledger', done', ?_,
      .command command answered (displays_formatResponse built) shows, attached'⟩
    rw [interactiveLoop, if_neg connected, (means_iff _ _).mp command]
    simp only [executed, looped, Option.map_some, Prod.map, id]
    rfl

theorem attached_fresh {sends : List SendResult} (noError : .error ∉ sends) :
    Attached (Link.fresh sends).redis (Link.fresh sends).server .empty [] :=
  ⟨linked_fresh noError, initial_keeps⟩

/-- **The session.** Each command that is typed gets to the server in one read of at most 4096
bytes, its reply gets back whole and in time, and no send fails. Then the client shows for the
lines of the input what a finite map with counters answers to the commands among them, up to the
line that leaves or the end of the input. The server's store ends with that map and these counters,
and the client is still connected. -/
theorem session_shows (sends : List SendResult) (inputs : List (Bytes × Exchange))
    (last : CommandHandler × ClientConnection) (noError : .error ∉ sends)
    (supplied : Supplied (Link.fresh sends).server inputs last) :
    ∃ shown redis' ledger, runInteractiveMode (Link.fresh sends).redis inputs =
        some (greeting ++ shown, redis') ∧
      Shows .empty (inputs.map Prod.fst) shown ledger ∧ Keeps last.1.store ledger ∧
      redis'.client.connected = true := by
  obtain ⟨shown, redis', ledger, done, looped, shows, attached⟩ :=
    (attached_fresh noError).loop supplied
  refine ⟨shown, redis', ledger, ?_, shows, ?_, attached.connected⟩
  · rw [runInteractiveMode, looped, Option.map_some, introduction_eq]
    rfl
  · rw [attached.linked.inStep.handler]
    exact attached.keeps

/-- If the answer to a command is known, it can come in one read of the client. -/
theorem exists_conveyed {answer : Message} {count : Nat} (args : List Bytes)
    (attached : Attached redis server ledger done) (nonempty : args ≠ [])
    (fits : (commandFrame args).length ≤ bufferSize)
    (known : ∀ answer' after, CommandSpec ledger args answer' after → answer' = answer)
    (built : answer.Encodable) (arrives : Arrives answer 0 [.data count]) :
    ∃ next, Conveyed server args ⟨true, answer, [.data count]⟩ next := by
  obtain ⟨after, answered, -⟩ := execute_keeps (storeAfter .initial done) ledger args attached.keeps
  have same := known _ _ answered
  obtain ⟨next, m', ran, wrote, -⟩ := attached.linked.serve nonempty fits
  rw [same] at wrote
  exact ⟨next, fits, rfl, ran, wrote, built, arrives⟩

theorem commandSpec_set {middle : Ledger} (key value : Bytes) {stored : Message}
    (set : CommandSpec ledger [text "SET", key, value] stored middle) :
    stored = okResponse ∧ middle.map = ledger.map.insert key value := by
  cases set with
  | command _ stores => exact kvSpec_set stores.command

/-- A key that has been set is got with its value. -/
theorem commandSpec_get {middle last : Ledger} {key value : Bytes} {stored found : Message}
    (set : CommandSpec ledger [text "SET", key, value] stored middle)
    (get : CommandSpec middle [text "GET", key] found last) :
    found = Message.makeBulkString value := by
  have value' : middle.receive.map.lookup key = some value := by
    change middle.map.lookup key = some value
    rw [(commandSpec_set key value set).2, Finmap.lookup_insert]
  cases get with
  | command _ finds =>
    obtain ⟨rfl, -⟩ := kvSpec_get finds.command
    rw [value']
    rfl

/-- What the network can do with a SET and a GET of the same key. -/
theorem exists_conveyed_set_get (attached : Attached redis server ledger done) :
    ∃ setting getting next last,
      Conveyed server [text "SET", text "a", text "1"] setting next ∧
      Conveyed next [text "GET", text "a"] getting last := by
  -- The frame of OK has seven bytes, that of the value six.
  have okArrives : Arrives okResponse 0 [.data 7] :=
    .inr ⟨fun _ => by decide, 7, by decide, rfl, rfl⟩
  obtain ⟨next, set⟩ := exists_conveyed [text "SET", text "a", text "1"] attached
    (List.cons_ne_nil _ _) (by decide) (fun _ _ answered => (commandSpec_set _ _ answered).1)
    (.simpleString _ (by decide)) okArrives
  obtain ⟨_, _, _, -, -, stores, attached'⟩ := attached.command (List.cons_ne_nil _ _) set
  have valueArrives : Arrives (Message.makeBulkString (text "1")) 0 [.data 6] :=
    .inr ⟨fun _ => by decide, 6, by decide, rfl, rfl⟩
  obtain ⟨last, get⟩ := exists_conveyed [text "GET", text "a"] attached'
    (List.cons_ne_nil _ _) (by decide) (fun _ _ finds => commandSpec_get stores finds)
    (.bulkString _ (by decide)) valueArrives
  exact ⟨_, _, next, last, set, get⟩

/-- A SET, the help, a blank line, a GET, and `quit`. -/
theorem session_shows_quit : ∃ (setting getting : Exchange)
    (last : CommandHandler × ClientConnection), ∃ shown redis' ledger,
    runInteractiveMode (Link.fresh []).redis [(text " SET a 1 ", setting), (text "help", setting),
        (text " ", setting), (text "GET a", getting), (text "quit", getting)] =
      some (greeting ++ shown, redis') ∧
    Shows .empty [text " SET a 1 ", text "help", text " ", text "GET a", text "quit"] shown ledger ∧
    Keeps last.1.store ledger ∧ redis'.client.connected = true := by
  have started : Attached (Link.fresh []).redis (Link.fresh []).server .empty [] :=
    attached_fresh List.not_mem_nil
  obtain ⟨setting, getting, next, last, set, get⟩ := exists_conveyed_set_get started
  have supplied : Supplied (Link.fresh []).server [(text " SET a 1 ", setting),
      (text "help", setting), (text " ", setting), (text "GET a", getting),
      (text "quit", getting)] last :=
    .command ((means_iff _ _).mpr rfl) set (.idle (.inr ((means_iff _ _).mpr rfl))
      (.idle (.inl ((means_iff _ _).mpr rfl)) (.command ((means_iff _ _).mpr rfl) get
        (.leave ((means_iff _ _).mpr rfl)))))
  exact ⟨setting, getting, last, session_shows [] _ last List.not_mem_nil supplied⟩

/-! ### What is typed between quotes -/

theorem Means.unique {line : Bytes} {first second : Typed} (means : Means line first)
    (means' : Means line second) : first = second :=
  ((means_iff _ _).mp means).symm.trans ((means_iff _ _).mp means')

/-- A session goes on after lines that do not leave it. -/
theorem Shows.after {ledger last : Ledger} {before after : List Bytes} {shown : Bytes}
    (stays : ∀ line ∈ before, ¬ Means line .leave)
    (shows : Shows ledger (before ++ after) shown last) :
    ∃ earlier middle later, shown = earlier ++ later ∧ Shows middle after later last := by
  induction before generalizing ledger shown with
  | nil => exact ⟨[], ledger, shown, rfl, shows⟩
  | cons line before ih =>
    obtain ⟨stays, others⟩ := List.forall_mem_cons.mp stays
    have go {front rest : Bytes} {next : Ledger} (shows : Shows next (before ++ after) rest last) :
        ∃ earlier middle later, front ++ rest = earlier ++ later ∧
          Shows middle after later last := by
      obtain ⟨earlier, middle, later, rfl, shows'⟩ := ih others shows
      exact ⟨front ++ earlier, middle, later, (List.append_assoc _ _ _).symm, shows'⟩
    cases shows with
    | leave leaves => exact absurd leaves stays
    | skip _ shows | help _ shows | command _ _ _ shows => exact go shows

theorem Shows.command_inv {ledger last : Ledger} {line shown : Bytes} {rest : List Bytes}
    {args : List Bytes} (command : Means line (.command args))
    (shows : Shows ledger (line :: rest) shown last) :
    ∃ answer displayed next later, CommandSpec ledger args answer next ∧
      Displays (some answer) displayed ∧ Shows next rest later last ∧
      shown = prompt ++ displayed ++ [0x0A] ++ later := by
  cases shows with
  | leave other | skip other | help other => cases command.unique other
  | command same answered displays shows =>
    have args' := command.unique same
    rw [Typed.command.injEq] at args'
    subst args'
    exact ⟨_, _, _, _, answered, displays, shows, rfl⟩

/-- **What is typed is shown.** A key and a value, of any characters, are typed between quotes in a
SET, and the key then in a GET. Each command that is typed gets to the server in one read of at
most 4096 bytes, its reply gets back whole and in time, and no send fails. Whatever was typed
before, the client shows OK and then the value. -/
theorem session_reads_back (sends : List SendResult) (inputs : List (Bytes × Exchange))
    (last : CommandHandler × ClientConnection) (before after : List Bytes) (key value : Bytes)
    (noError : .error ∉ sends) (supplied : Supplied (Link.fresh sends).server inputs last)
    (lines : inputs.map Prod.fst = before ++ commandLine [text "SET", key, value] ::
      commandLine [text "GET", key] :: after)
    (stays : ∀ line ∈ before, ¬ Means line .leave) (someKey : key ≠ []) (someValue : value ≠ []) :
    ∃ earlier later redis', runInteractiveMode (Link.fresh sends).redis inputs =
      some (earlier ++ (text "127.0.0.1:6380> OK\n" ++
        (text "127.0.0.1:6380> \"" ++ value ++ text "\"\n" ++ later)), redis') := by
  obtain ⟨shown, redis', _, _, looped, shows, -⟩ := (attached_fresh noError).loop supplied
  rw [lines] at shows
  have setLine : Means (commandLine [text "SET", key, value])
      (.command [text "SET", key, value]) :=
    means_commandLine (List.cons_ne_nil _ _) (by simp [someKey.symm, someValue.symm, text])
  have getLine : Means (commandLine [text "GET", key]) (.command [text "GET", key]) :=
    means_commandLine (List.cons_ne_nil _ _) (by simp [someKey.symm, text])
  -- The lines before, the SET, the GET and the rest.
  obtain ⟨earlier, _, _, rfl, setting⟩ := shows.after stays
  obtain ⟨stored, ok, _, _, set, displaysOk, getting, rfl⟩ := setting.command_inv setLine
  obtain ⟨found, quoted, _, later, get, displaysValue, -, rfl⟩ := getting.command_inv getLine
  -- Both answers are known, and each is displayed in one way only.
  obtain rfl := (commandSpec_set key value set).1
  obtain rfl := commandSpec_get set get
  cases displaysOk
  cases displaysValue
  refine ⟨introduction ++ earlier, later, redis', ?_⟩
  rw [runInteractiveMode, looped]
  simp [prompt, text]

/-- A session of `"SET" "a" "1"` and `"GET" "a"`, after the help. -/
theorem session_reads_back_one : ∃ inputs last,
    Supplied (Link.fresh []).server inputs last ∧
      inputs.map Prod.fst = [text "help", commandLine [text "SET", text "a", text "1"],
        commandLine [text "GET", text "a"]] ∧
      ∃ earlier later redis', runInteractiveMode (Link.fresh []).redis inputs =
        some (earlier ++ (text "127.0.0.1:6380> OK\n" ++
          (text "127.0.0.1:6380> \"" ++ text "1" ++ text "\"\n" ++ later)), redis') := by
  have started : Attached (Link.fresh []).redis (Link.fresh []).server .empty [] :=
    attached_fresh List.not_mem_nil
  obtain ⟨setting, getting, next, last, set, get⟩ := exists_conveyed_set_get started
  have helped : Means (text "help") .help := (means_iff _ _).mpr rfl
  have supplied : Supplied (Link.fresh []).server [(text "help", setting),
      (commandLine [text "SET", text "a", text "1"], setting),
      (commandLine [text "GET", text "a"], getting)] last :=
    .idle (.inr helped) (.command ((means_iff _ _).mpr rfl) set
      (.command ((means_iff _ _).mpr rfl) get (.eof last)))
  exact ⟨_, last, supplied, rfl,
    session_reads_back [] _ last [text "help"] [] (text "a") (text "1") List.not_mem_nil supplied
      rfl (by simpa using fun leaves => nomatch helped.unique leaves) (by decide) (by decide)⟩

end RedisClient
end ScuffedRedis
