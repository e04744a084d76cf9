import ScuffedRedis.Server.KvRefinement

/-!
# The store keeps its books

Beside the table the store has counters, which `INFO` and `get_stats` report and `clear` resets.
The abstract machine is a finite map with these counters; it leaves only the order of the keys in
the answer to KEYS open.
-/
namespace ScuffedRedis

open Protocol Foundation

namespace KVStore

/-! ### The public functions of the class -/

/-- `KVStore::Stats`. -/
structure Stats where
  keysCount : Nat
  memoryUsage : Nat
  commandsProcessed : Nat
  getCommands : Nat
  setCommands : Nat
  delCommands : Nat
  deriving DecidableEq

def getStats (kv : KVStore) : Stats where
  keysCount := kv.store.size
  memoryUsage := kv.store.size * 100
  commandsProcessed := kv.commandsProcessed
  getCommands := kv.getCommands
  setCommands := kv.setCommands
  delCommands := kv.delCommands

/-- Unlike FLUSHDB it resets the statistics too. -/
def clear (kv : KVStore) : KVStore where
  store := kv.store.clear
  commandsProcessed := 0
  getCommands := 0
  setCommands := 0
  delCommands := 0

inductive Call where
  | executeCommand (request : Message)
  | executeRaw (args : List Bytes)
  | getStats
  | clear

inductive Reply where
  | response (message : Message)
  | stats (stats : Stats)
  | cleared

def call (kv : KVStore) : Call → Reply × KVStore
  | .executeCommand request =>
    let (message, kv) := kv.executeCommand request
    (.response message, kv)
  | .executeRaw args =>
    let (message, kv) := kv.executeRaw args
    (.response message, kv)
  | .getStats => (.stats kv.getStats, kv)
  | .clear => (.cleared, kv.clear)

/-! ### The abstract machine -/

/-- A finite map with the four counters. -/
structure Ledger where
  map : KeyMap
  processed : Nat
  gets : Nat
  sets : Nat
  dels : Nat

namespace Ledger

def empty : Ledger where
  map := ∅
  processed := 0
  gets := 0
  sets := 0
  dels := 0

/-- The arguments are this command with a right number of operands. -/
def Accepted (cmd : Bytes) (args : List Bytes) : Prop :=
  refusal args = none ∧ args.head?.map toUpper = some cmd

instance (cmd : Bytes) (args : List Bytes) : Decidable (Accepted cmd args) :=
  inferInstanceAs (Decidable (_ ∧ _))

def receive (ledger : Ledger) : Ledger := { ledger with processed := ledger.processed + 1 }

/-- The books after a command that left the map `next`. -/
def note (ledger : Ledger) (args : List Bytes) (next : KeyMap) : Ledger where
  map := next
  processed := ledger.processed
  gets := ledger.gets + if Accepted (text "GET") args then 1 else 0
  sets := ledger.sets + if Accepted (text "SET") args then 1 else 0
  dels := ledger.dels + if Accepted (text "DEL") args then 1 else 0

/-- The sections of the report, with the names and the values of their fields. The memory is a
guess, and no more is known of the server and its clients. -/
def sections (keys processed : Nat) : List (String × List (String × String)) :=
  [("Server", [("redis_version", "ScuffedRedis-0.1.0"), ("redis_mode", "standalone"),
      ("process_id", "1234")]),
    ("Clients", [("connected_clients", "1")]),
    ("Memory", [("used_memory", toString (keys * 100))]),
    ("Stats", [("total_commands_processed", toString processed),
      ("instantaneous_ops_per_sec", "0")]),
    ("Keyspace", [("db0", "keys=" ++ toString keys ++ ",expires=0")])]

/-- What INFO says with so many keys after so many commands: the sections, with an empty line
between each two. -/
def report (keys processed : Nat) : Bytes :=
  let lines (part : String × List (String × String)) : List String :=
    ("# " ++ part.1) :: part.2.map fun field => field.1 ++ ":" ++ field.2
  (List.intercalate [""] ((sections keys processed).map lines)).flatMap
    fun line => text (line ++ "\r\n")

def stats (ledger : Ledger) : Stats where
  keysCount := ledger.map.keys.card
  memoryUsage := ledger.map.keys.card * 100
  commandsProcessed := ledger.processed
  getCommands := ledger.gets
  setCommands := ledger.sets
  delCommands := ledger.dels

end Ledger

open Ledger

/-- A command is answered as `KvSpec` says, and INFO with the exact report. -/
structure Answers (ledger : Ledger) (args : List Bytes) (answer : Message) (next : KeyMap) :
    Prop where
  command : KvSpec ledger.map args answer next
  reported : Accepted (text "INFO") args →
    answer = Message.makeBulkString (report ledger.map.keys.card ledger.processed)

/-- Every `execute_command` is counted as received, also one that is not a command at all. -/
inductive LedgerSpec (ledger : Ledger) : Call → Reply → Ledger → Prop
  | raw {args answer next} : Answers ledger args answer next →
      LedgerSpec ledger (.executeRaw args) (.response answer) (ledger.note args next)
  | invalid {request} : parseCommand request = [] →
      LedgerSpec ledger (.executeCommand request)
        (.response (errorResponse (text "ERR invalid command format"))) ledger.receive
  | command {request answer next} : parseCommand request ≠ [] →
      Answers ledger.receive (parseCommand request) answer next →
      LedgerSpec ledger (.executeCommand request) (.response answer)
        (ledger.receive.note (parseCommand request) next)
  | stats : LedgerSpec ledger .getStats (.stats ledger.stats) ledger
  | clear : LedgerSpec ledger .clear .cleared .empty

/-- The store holds the map, and its counters are those of the books. -/
structure Keeps (kv : KVStore) (ledger : Ledger) : Prop where
  refines : HashTable.Refines kv.store ledger.map
  processed : kv.commandsProcessed = ledger.processed
  gets : kv.getCommands = ledger.gets
  sets : kv.setCommands = ledger.sets
  dels : kv.delCommands = ledger.dels

/-! ### What the handlers count -/

/-- The counters of `kv` after a command, if it was accepted. -/
structure Counted (kv after : KVStore) (cmd : Bytes) (accepted : Bool) : Prop where
  processed : after.commandsProcessed = kv.commandsProcessed
  gets : after.getCommands = kv.getCommands + if accepted = true ∧ cmd = text "GET" then 1 else 0
  sets : after.setCommands = kv.setCommands + if accepted = true ∧ cmd = text "SET" then 1 else 0
  dels : after.delCommands = kv.delCommands + if accepted = true ∧ cmd = text "DEL" then 1 else 0

/-- A handler counts what its arity lets through. -/
def Counts (cmd : Bytes) (handler : Handler) : Prop :=
  ∃ accepts, arities.lookup cmd = some accepts ∧
    ∀ kv name operands,
      Counted kv (handler kv (name :: operands)).2 cmd (accepts (operands.length + 1))

theorem counted_refused (kv : KVStore) (cmd : Bytes) : Counted kv kv cmd false :=
  ⟨rfl, by simp, by simp, by simp⟩

/-- The commands without a counter. -/
theorem counted_other (kv : KVStore) {after : KVStore} {cmd : Bytes} (accepted : Bool)
    (uncounted : cmd ∉ [text "GET", text "SET", text "DEL"])
    (same : after.commandsProcessed = kv.commandsProcessed ∧
      after.getCommands = kv.getCommands ∧ after.setCommands = kv.setCommands ∧
      after.delCommands = kv.delCommands) : Counted kv after cmd accepted := by
  simp only [List.mem_cons, List.not_mem_nil, or_false, not_or] at uncounted
  obtain ⟨notGet, notSet, notDel⟩ := uncounted
  obtain ⟨processed, gets, sets, dels⟩ := same
  exact ⟨processed, by simp [gets, notGet], by simp [sets, notSet], by simp [dels, notDel]⟩

theorem handleGet_counts : Counts (text "GET") handleGet := by
  refine ⟨_, rfl, fun kv name operands => ?_⟩
  rcases operands with _ | ⟨key, _ | ⟨extra, rest⟩⟩
  · exact counted_refused kv _
  · rw [handleGet]
    dsimp only
    split <;> exact ⟨rfl, rfl, rfl, rfl⟩
  · exact counted_refused kv _

theorem handleSet_counts : Counts (text "SET") handleSet := by
  refine ⟨_, rfl, fun kv name operands => ?_⟩
  rcases operands with _ | ⟨key, _ | ⟨value, options⟩⟩
  · exact counted_refused kv _
  · exact counted_refused kv _
  · have accepted : (3 ≤ (key :: value :: options).length + 1 : Bool) = true := by simp
    rw [accepted]
    exact ⟨rfl, rfl, rfl, rfl⟩

theorem handleDel_counts : Counts (text "DEL") handleDel := by
  refine ⟨_, rfl, fun kv name operands => ?_⟩
  rcases operands with _ | ⟨key, keys⟩
  · exact counted_refused kv _
  · have accepted : (2 ≤ (key :: keys).length + 1 : Bool) = true := by simp
    rw [accepted]
    exact ⟨rfl, rfl, rfl, rfl⟩

/-- A handler that leaves the counters alone. -/
theorem counts_other {cmd : Bytes} {handler : Handler} {accepts : Nat → Bool}
    (listed : arities.lookup cmd = some accepts)
    (uncounted : cmd ∉ [text "GET", text "SET", text "DEL"])
    (same : ∀ kv args, (handler kv args).2.commandsProcessed = kv.commandsProcessed ∧
      (handler kv args).2.getCommands = kv.getCommands ∧
      (handler kv args).2.setCommands = kv.setCommands ∧
      (handler kv args).2.delCommands = kv.delCommands) : Counts cmd handler :=
  ⟨accepts, listed, fun kv name operands =>
    counted_other kv _ uncounted (same kv (name :: operands))⟩

theorem handlers_count : ∀ entry ∈ handlers, Counts entry.1 entry.2 := by
  simp only [handlers, List.forall_mem_cons]
  refine ⟨handleGet_counts, handleSet_counts, handleDel_counts, ?_, ?_, ?_, ?_, ?_, ?_, ?_,
    fun _ listed => absurd listed List.not_mem_nil⟩
  · refine counts_other rfl (by decide) fun kv args => ?_
    unfold handleExists
    split <;> exact ⟨rfl, rfl, rfl, rfl⟩
  · refine counts_other rfl (by decide) fun kv args => ?_
    unfold handleKeys
    split <;> exact ⟨rfl, rfl, rfl, rfl⟩
  · refine counts_other rfl (by decide) fun kv args => ?_
    unfold handlePing
    split <;> exact ⟨rfl, rfl, rfl, rfl⟩
  · refine counts_other rfl (by decide) fun kv args => ?_
    unfold handleEcho
    split <;> exact ⟨rfl, rfl, rfl, rfl⟩
  · refine counts_other rfl (by decide) fun kv args => ?_
    unfold handleFlushdb
    split <;> exact ⟨rfl, rfl, rfl, rfl⟩
  · refine counts_other rfl (by decide) fun kv args => ?_
    unfold handleDbsize
    split <;> exact ⟨rfl, rfl, rfl, rfl⟩
  · exact counts_other rfl (by decide) fun kv args => ⟨rfl, rfl, rfl, rfl⟩

/-! ### Commands -/

theorem accepted_iff {cmd other name : Bytes} {operands : List Bytes} {accepts : Nat → Bool}
    (named : toUpper name = cmd) (listed : arities.lookup cmd = some accepts) :
    Accepted other (name :: operands) ↔ accepts (operands.length + 1) = true ∧ cmd = other := by
  rw [Accepted, refusal, named, listed, List.head?_cons, Option.map_some, named,
    Option.some.injEq]
  by_cases accepted : accepts (operands.length + 1) = true <;> simp [accepted]

/-- Nothing else is accepted. -/
theorem not_accepted {args : List Bytes} {error : Bytes} (refused : refusal args = some error)
    (cmd : Bytes) : ¬ Accepted cmd args := by
  rintro ⟨accepted, -⟩
  rw [refused] at accepted
  cases accepted

theorem note_refused (ledger : Ledger) {args : List Bytes} {error : Bytes} {next : KeyMap}
    (refused : refusal args = some error) :
    ledger.note args next = { ledger with map := next } := by
  simp only [note, if_neg (not_accepted refused _), Nat.add_zero]

theorem executeRaw_counters {kv : KVStore} {ledger : Ledger} (keeps : Keeps kv ledger)
    (args : List Bytes) (next : KeyMap)
    (refines : HashTable.Refines (kv.executeRaw args).2.store next) :
    Keeps (kv.executeRaw args).2 (ledger.note args next) := by
  obtain ⟨-, processed, gets, sets, dels⟩ := keeps
  -- A refused command leaves the counters alone.
  have refused {error : Bytes} (refused : refusal args = some error)
      (same : (kv.executeRaw args).2 = kv) :
      Keeps (kv.executeRaw args).2 (ledger.note args next) := by
    rw [note_refused ledger refused]
    refine ⟨refines, ?_, ?_, ?_, ?_⟩ <;> rwa [same]
  cases args with
  | nil => exact refused rfl rfl
  | cons name operands =>
    cases known : handlers.lookup (toUpper name) with
    | none =>
      have unknown : refusal (name :: operands) =
          some (text "ERR unknown command '" ++ name ++ text "'") := by
        rw [refusal, arities_lookup_none known]
      exact refused unknown (by rw [executeRaw, known])
    | some handler =>
      have handled : (kv.executeRaw (name :: operands)).2 = (handler kv (name :: operands)).2 := by
        rw [executeRaw, known]
      obtain ⟨accepts, listed, counts⟩ := handlers_count _ (mem_of_lookup known)
      have counted := counts kv name operands
      have accepted (other : Bytes) :
          Accepted other (name :: operands) ↔
            accepts (operands.length + 1) = true ∧ toUpper name = other :=
        accepted_iff rfl listed
      refine ⟨refines, ?_, ?_, ?_, ?_⟩
      · rw [handled, counted.processed, processed, note]
      · rw [handled, counted.gets, gets, note]
        simp only [accepted]
      · rw [handled, counted.sets, sets, note]
        simp only [accepted]
      · rw [handled, counted.dels, dels, note]
        simp only [accepted]

/-- The lines that `handle_info` writes are those of the report. -/
theorem report_eq (kv : KVStore) :
    report kv.store.size kv.commandsProcessed =
      (infoLines kv).flatMap fun line => text line ++ text "\r\n" := by
  have ended (line : String) : text (line ++ "\r\n") = text line ++ text "\r\n" := by
    rw [text, String.toList_append, List.map_append]
    rfl
  have keyspace (keys : String) : "db0:" ++ ("keys=" ++ keys ++ ",expires=0") =
      "db0:keys=" ++ keys ++ ",expires=0" := by
    rw [← String.append_assoc, ← String.append_assoc]
    rfl
  simp [report, sections, infoLines, ended, List.intercalate, keyspace]

/-- INFO reports the number of keys and of commands. -/
theorem executeRaw_info {kv : KVStore} {ledger : Ledger} (keeps : Keeps kv ledger)
    {args : List Bytes} (info : Accepted (text "INFO") args) :
    (kv.executeRaw args).1 =
      Message.makeBulkString (report ledger.map.keys.card ledger.processed) := by
  obtain ⟨accepted, named⟩ := info
  cases args with
  | nil => cases accepted
  | cons name operands =>
    rw [List.head?_cons, Option.map_some, Option.some.injEq] at named
    have known : handlers.lookup (toUpper name) = some handleInfo := by
      rw [named]
      rfl
    have keys : kv.store.size = ledger.map.keys.card := HashTable.size_eq keeps.refines
    rw [← keys, ← keeps.processed, report_eq]
    simp only [executeRaw, known, handleInfo]

/-- One command is a command of the books. -/
theorem executeRaw_keeps {kv : KVStore} {ledger : Ledger} (keeps : Keeps kv ledger)
    (args : List Bytes) : ∃ next, Answers ledger args (kv.executeRaw args).1 next ∧
      Keeps (kv.executeRaw args).2 (ledger.note args next) := by
  obtain ⟨next, answered, refines⟩ := executeRaw_refines kv ledger.map args keeps.refines
  exact ⟨next, ⟨answered, executeRaw_info keeps⟩, executeRaw_counters keeps args next refines⟩

theorem Keeps.receive {kv : KVStore} {ledger : Ledger} (keeps : Keeps kv ledger) :
    Keeps { kv with commandsProcessed := kv.commandsProcessed + 1 } ledger.receive where
  refines := keeps.refines
  processed := congrArg (· + 1) keeps.processed
  gets := keeps.gets
  sets := keeps.sets
  dels := keeps.dels

theorem executeCommand_eq (kv : KVStore) {request : Message} (command : parseCommand request ≠ []) :
    kv.executeCommand request =
      executeRaw { kv with commandsProcessed := kv.commandsProcessed + 1 }
        (parseCommand request) := by
  unfold executeCommand
  dsimp only
  split
  next empty => exact absurd empty command
  next => rfl

/-- A request off the wire, whether it is a command or not. -/
theorem executeCommand_keeps {kv : KVStore} {ledger : Ledger} (keeps : Keeps kv ledger)
    (request : Message) : ∃ next,
      LedgerSpec ledger (.executeCommand request) (.response (kv.executeCommand request).1) next ∧
        Keeps (kv.executeCommand request).2 next := by
  by_cases command : parseCommand request = []
  · refine ⟨ledger.receive, ?_, ?_⟩
    · rw [executeCommand, command]
      exact .invalid command
    · rw [executeCommand, command]
      exact keeps.receive
  · obtain ⟨next, answered, kept⟩ := executeRaw_keeps keeps.receive (parseCommand request)
    rw [executeCommand_eq kv command]
    exact ⟨_, .command command answered, kept⟩

theorem getStats_eq {kv : KVStore} {ledger : Ledger} (keeps : Keeps kv ledger) :
    kv.getStats = ledger.stats := by
  have keys : kv.store.size = ledger.map.keys.card := HashTable.size_eq keeps.refines
  rw [getStats, stats, keys, keeps.processed, keeps.gets, keeps.sets, keeps.dels]

theorem call_keeps (kv : KVStore) (ledger : Ledger) (input : Call) (keeps : Keeps kv ledger) :
    ∃ next, LedgerSpec ledger input (kv.call input).1 next ∧ Keeps (kv.call input).2 next := by
  cases input with
  | executeCommand request => exact executeCommand_keeps keeps request
  | executeRaw args =>
    obtain ⟨next, answered, kept⟩ := executeRaw_keeps keeps args
    exact ⟨ledger.note args next, .raw answered, kept⟩
  | getStats =>
    refine ⟨ledger, ?_, keeps⟩
    rw [call, getStats_eq keeps]
    exact .stats
  | clear => exact ⟨.empty, .clear, HashTable.clear_refines keeps.refines, rfl, rfl, rfl, rfl⟩

/-! ### Runs -/

theorem initial_keeps : Keeps initial .empty := ⟨initial_refines, rfl, rfl, rfl, rfl⟩

/-- **The store and its books.** In every run of the public functions, each reply is the one that
a finite map with counters gives, the report of INFO and the statistics included, and the store
ends with the map and the counters of that machine. -/
theorem calls_keep_books (calls : List Call) :
    ∃ ledger, SpecRun LedgerSpec .empty calls (runInputs call initial calls).1 ledger ∧
      Keeps (runInputs call initial calls).2 ledger :=
  runInputs_simulates Keeps call_keeps initial_keeps calls

end KVStore
end ScuffedRedis
