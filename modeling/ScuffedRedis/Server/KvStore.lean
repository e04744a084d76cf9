import ScuffedRedis.Protocol.Message
import ScuffedRedis.Data.HashTable

/-!
# The key-value store

Commands are looked up by their upper-cased name and checked for their number of arguments
by their handlers.
-/
namespace ScuffedRedis

open Protocol

/-- The store with its command counters. In the source they are `size_t`, here they never wrap. -/
structure KVStore where
  store : HashTable
  commandsProcessed : Nat
  getCommands : Nat
  setCommands : Nat
  delCommands : Nat

namespace KVStore

/-- The default capacity of `ConcurrentHashTable`. -/
def initialCapacity : UInt64 := 16

def initial : KVStore where
  store := { buckets := List.replicate 16 [], size := 0 }
  commandsProcessed := 0
  getCommands := 0
  setCommands := 0
  delCommands := 0

example : (HashTable.construct 1 initialCapacity).map (·.buckets) = some initial.store.buckets := by
  decide

/-- `std::toupper` in the C locale. -/
def toUpperByte (c : UInt8) : UInt8 := if 0x61 ≤ c ∧ c ≤ 0x7A then c - 0x20 else c

def toUpper (str : Bytes) : Bytes := str.map toUpperByte

/-! ### Command handlers

Each takes all arguments, the command name first. -/

abbrev Handler := KVStore → List Bytes → Message × KVStore

def wrongNumber (cmd : String) : Message :=
  errorResponse (text ("ERR wrong number of arguments for '" ++ cmd ++ "'"))

def handleGet : Handler
  | kv, [_, key] =>
    let kv := { kv with getCommands := kv.getCommands + 1 }
    match kv.store.get key with
    | some value => (Message.makeBulkString value, kv)
    | none => (nilResponse, kv)
  | kv, _ => (wrongNumber "GET", kv)

/-- Arguments after the value are ignored. -/
def handleSet : Handler
  | kv, _ :: key :: value :: _ =>
    let kv := { kv with setCommands := kv.setCommands + 1 }
    (okResponse, { kv with store := (kv.store.set key value).2 })
  | kv, _ => (wrongNumber "SET", kv)

/-- The loop over the keys, with the number deleted so far. -/
def deleteKeys (store : HashTable) (deleted : Int64) : List Bytes → Int64 × HashTable
  | [] => (deleted, store)
  | key :: keys =>
    let (found, store) := store.del key
    deleteKeys store (if found then deleted + 1 else deleted) keys

def handleDel : Handler
  | kv, _ :: key :: keys =>
    let kv := { kv with delCommands := kv.delCommands + 1 }
    let (deleted, store) := deleteKeys kv.store 0 (key :: keys)
    (Message.makeInteger deleted, { kv with store := store })
  | kv, _ => (wrongNumber "DEL", kv)

/-- The loop over the keys, with the number found so far. -/
def countKeys (store : HashTable) (count : Int64) : List Bytes → Int64
  | [] => count
  | key :: keys => countKeys store (if store.exists' key then count + 1 else count) keys

def handleExists : Handler
  | kv, _ :: key :: keys => (Message.makeInteger (countKeys kv.store 0 (key :: keys)), kv)
  | kv, _ => (wrongNumber "EXISTS", kv)

def handleKeys : Handler
  | kv, [_, pattern] =>
    (Message.makeArray ((kv.store.keys pattern).map fun key => some (Message.makeBulkString key)),
      kv)
  | kv, _ => (wrongNumber "KEYS", kv)

def handlePing : Handler
  | kv, [_] => (pongResponse, kv)
  | kv, [_, message] => (Message.makeBulkString message, kv)
  | kv, _ => (wrongNumber "PING", kv)

def handleEcho : Handler
  | kv, [_, message] => (Message.makeBulkString message, kv)
  | kv, _ => (wrongNumber "ECHO", kv)

def handleFlushdb : Handler
  | kv, [_] => (okResponse, { kv with store := kv.store.clear })
  | kv, _ => (wrongNumber "FLUSHDB", kv)

def handleDbsize : Handler
  | kv, [_] => (Message.makeInteger (Int64.ofNat kv.store.size), kv)
  | kv, _ => (wrongNumber "DBSIZE", kv)

def infoLines (kv : KVStore) : List String :=
  ["# Server",
    "redis_version:ScuffedRedis-0.1.0",
    "redis_mode:standalone",
    "process_id:1234",
    "",
    "# Clients",
    "connected_clients:1",
    "",
    "# Memory",
    "used_memory:" ++ toString (kv.store.size * 100),
    "",
    "# Stats",
    "total_commands_processed:" ++ toString kv.commandsProcessed,
    "instantaneous_ops_per_sec:0",
    "",
    "# Keyspace",
    "db0:keys=" ++ toString kv.store.size ++ ",expires=0"]

def handleInfo : Handler := fun kv _ =>
  (Message.makeBulkString ((infoLines kv).flatMap fun line => text line ++ text "\r\n"), kv)

/-- The table that `init_handlers` fills. -/
def handlers : List (Bytes × Handler) :=
  [(text "GET", handleGet),
    (text "SET", handleSet),
    (text "DEL", handleDel),
    (text "EXISTS", handleExists),
    (text "KEYS", handleKeys),
    (text "PING", handlePing),
    (text "ECHO", handleEcho),
    (text "FLUSHDB", handleFlushdb),
    (text "DBSIZE", handleDbsize),
    (text "INFO", handleInfo)]

/-! ### Dispatch -/

def executeRaw (kv : KVStore) (args : List Bytes) : Message × KVStore :=
  match args with
  | [] => (errorResponse (text "ERR empty command"), kv)
  | name :: _ =>
    match handlers.lookup (toUpper name) with
    | none => (errorResponse (text "ERR unknown command '" ++ name ++ text "'"), kv)
    | some handler => handler kv args

def executeCommand (kv : KVStore) (request : Message) : Message × KVStore :=
  let kv := { kv with commandsProcessed := kv.commandsProcessed + 1 }
  match parseCommand request with
  | [] => (errorResponse (text "ERR invalid command format"), kv)
  | args => executeRaw kv args

end KVStore
end ScuffedRedis
