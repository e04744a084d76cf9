import ScuffedRedis.Protocol.Message
import ScuffedRedis.Foundation.Utf8

/-!
# The client of the Node server

`ScuffedRedisClient` of `redis.ts`. A JavaScript string of well-formed Unicode is a `String`; its
`length` counts UTF-16 code units and `Buffer.from` gives its UTF-8 bytes. A `null` result is
`none`.
-/
namespace ScuffedRedis

open Foundation

/-- A promise that a `data` event has resolved. Commands and events are numbered from zero. -/
structure Resolution where
  command : Nat
  event : Nat
  result : Option String
  deriving DecidableEq

/-- A connected client with what its socket has seen: the commands written and the `data` events.
A listener is the number of the command whose promise it resolves. -/
structure ScuffedRedisClient where
  written : List Bytes
  listeners : List Nat
  replies : List Bytes
  resolved : List Resolution

namespace ScuffedRedisClient

/-! ### Encoding and decoding -/

/-- `writeUInt32LE` into a buffer of four bytes. It throws a `RangeError` for what is no
`uint32`. -/
def writeUInt32LE (value : Nat) : Option Bytes :=
  if value < 2 ^ 32 then
    some [UInt8.ofNat value, UInt8.ofNat (value / 2 ^ 8), UInt8.ofNat (value / 2 ^ 16),
      UInt8.ofNat (value / 2 ^ 24)]
  else none

/-- One argument, as BULK_STRING. The length that is written is `arg.length`. -/
def buildArgument (arg : String) : Option Bytes := do
  let argLen ← writeUInt32LE (Utf8.utf16Length arg)
  return [0x04] ++ argLen ++ Utf8.encode arg

def buildCommand (args : List String) : Option Bytes := do
  let len ← writeUInt32LE args.length
  let buffers ← args.mapM buildArgument
  return [0x05] ++ len ++ buffers.flatten

def readUInt32LE (b0 b1 b2 b3 : UInt8) : Nat :=
  b0.toNat + b1.toNat * 2 ^ 8 + b2.toNat * 2 ^ 16 + b3.toNat * 2 ^ 24

/-- `data.slice(start, end)`. -/
def slice (data : Bytes) (start stop : Nat) : Bytes := (data.take stop).drop start

/-- Types other than these three are read as `null` too. -/
def parseResponse (data : Bytes) : Option String :=
  match data with
  | type :: b0 :: b1 :: b2 :: b3 :: _ =>
    let length := readUInt32LE b0 b1 b2 b3
    if type = 0x06 then none
    else if type = 0x04 ∨ type = 0x01 then some (Utf8.decode (slice data 5 (5 + length)))
    else none
  | _ => none

/-! ### The socket -/

def initial : ScuffedRedisClient where
  written := []
  listeners := []
  replies := []
  resolved := []

/-- A command that cannot be built rejects its promise, and nothing is written. -/
def sendCommand (client : ScuffedRedisClient) (args : List String) : ScuffedRedisClient :=
  match buildCommand args with
  | none => client
  | some cmd =>
    { client with
      written := client.written ++ [cmd]
      listeners := client.listeners ++ [client.written.length] }

/-- A `data` event calls the listeners in the order in which they were added. All were added with
`once`, so none is left. -/
def onData (client : ScuffedRedisClient) (data : Bytes) : ScuffedRedisClient where
  written := client.written
  listeners := []
  replies := client.replies ++ [data]
  resolved := client.resolved ++ client.listeners.map fun command =>
    ⟨command, client.replies.length, parseResponse data⟩

inductive Event where
  | sendCommand (args : List String)
  | data (reply : Bytes)

/-- The server answers the commands in order, each reply in an event of its own: there is no
event while every command is answered. -/
def step (client : ScuffedRedisClient) : Event → Option ScuffedRedisClient
  | .sendCommand args => some (client.sendCommand args)
  | .data reply =>
    if client.replies.length < client.written.length then some (client.onData reply) else none

/-! ### Numbers -/

/-- White space and line terminators of JavaScript. -/
def isSpace (c : Char) : Bool :=
  decide (c.toNat ∈ [0x09, 0x0A, 0x0B, 0x0C, 0x0D, 0x20, 0xA0, 0x1680, 0x2028, 0x2029, 0x202F,
      0x205F, 0x3000, 0xFEFF] ∨ 0x2000 ≤ c.toNat ∧ c.toNat ≤ 0x200A)

/-- The value of a digit of this radix. -/
def digit (radix : Nat) (c : Char) : Option Nat :=
  let value :=
    if '0' ≤ c ∧ c ≤ '9' then c.toNat - '0'.toNat
    else if 'a' ≤ c ∧ c ≤ 'z' then c.toNat - 'a'.toNat + 10
    else if 'A' ≤ c ∧ c ≤ 'Z' then c.toNat - 'A'.toNat + 10
    else radix
  if value < radix then some value else none

/-- The value of the leading digits, or nothing when there are none. -/
def digits (radix : Nat) : Option Nat → List Char → Option Nat
  | value, [] => value
  | value, c :: chars =>
    match digit radix c with
    | some d => digits radix (some (value.getD 0 * radix + d)) chars
    | none => value

def magnitude : List Char → Option Nat
  | '0' :: 'x' :: chars | '0' :: 'X' :: chars => digits 16 none chars
  | chars => digits 10 none chars

/-- `parseInt`, before its value is rounded to a Number; `none` is `NaN`. -/
def parseInt (string : String) : Option Int :=
  match string.toList.dropWhile isSpace with
  | '-' :: chars => (magnitude chars).map fun value => -(value : Int)
  | '+' :: chars => (magnitude chars).map fun value => (value : Int)
  | chars => (magnitude chars).map fun value => (value : Int)

/-- `parseInt(result) || 0`. Of `null` it sees the text. -/
def parseIntOrZero (result : Option String) : Int := (parseInt (result.getD "null")).getD 0

example : [parseIntOrZero none, parseIntOrZero (some " -12ab"), parseIntOrZero (some "0x1F")] =
    [0, -12, 31] := by decide

/-! ### Commands -/

/-- The methods that send a command. A time to live is the text of a number other than zero. -/
inductive Call where
  | get (key : String)
  | set (key value : String) (ttl : Option String)
  | del (key : String)
  | exists' (key : String)
  | keys (pattern : String)
  | dbsize

/-- What the promise of a method resolves with. -/
inductive Returned where
  | value (result : Option String)
  | nothing
  | number (count : Int)
  | list (keys : List String)
  deriving DecidableEq

namespace Call

def args : Call → List String
  | get key => ["GET", key]
  | set key value none => ["SET", key, value]
  | set key value (some ttl) => ["SET", key, value, "EX", ttl]
  | del key => ["DEL", key]
  | exists' key => ["EXISTS", key]
  | keys pattern => ["KEYS", pattern]
  | dbsize => ["DBSIZE"]

/-- `result.split(',')` without the empty strings. -/
def splitKeys (result : String) : List String :=
  ((result.toList.splitOn ',').map String.ofList).filter fun k => 0 < Utf8.utf16Length k

/-- What a method makes of the result of `sendCommand`. -/
def finish (result : Option String) : Call → Returned
  | get _ => .value result
  | set _ _ _ => .nothing
  | del _ | exists' _ | dbsize => .number (parseIntOrZero result)
  | keys _ =>
    -- `if (!result) return []`: the empty string is false too.
    .list (match result with
      | none => []
      | some result => if result = "" then [] else splitKeys result)

end Call
end ScuffedRedisClient
end ScuffedRedis
