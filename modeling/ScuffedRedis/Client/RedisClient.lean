import ScuffedRedis.Protocol.Parser

/-!
# The C++ client

`RedisClient` over `TcpClient`. The socket is what its calls give: whether a connection is made,
whether the bytes of a command are taken, and what each wait for data ends with. The server puts
one serialized reply for each command on the connection.
-/
namespace ScuffedRedis

open Protocol

/-- How a wait for data ends: bytes are there and at most so many are read, the time runs out, or
the connection has ended. -/
inductive Receive where
  | data (count : Nat)
  | timeout
  | closed

/-- The bytes sent on the connection, and those that the server has put on it and that were not
read. -/
structure TcpClient where
  connected : Bool
  outgoing : Bytes
  incoming : Bytes

namespace TcpClient

def initial : TcpClient where
  connected := false
  outgoing := []
  incoming := []

/-- What is still on the connection is lost with it. -/
def disconnect (client : TcpClient) : TcpClient :=
  if client.connected then initial else client

def connect (client : TcpClient) (established : Bool) : Bool × TcpClient :=
  let client := client.disconnect
  if established then (true, { initial with connected := true }) else (client.connected, client)

/-- `taken` is whether the loop gets all bytes sent. -/
def sendRaw (client : TcpClient) (data : Bytes) (taken : Bool) : Bool × TcpClient :=
  if client.connected = false then (false, client)
  else if taken then (true, { client with outgoing := client.outgoing ++ data })
  else (false, client.disconnect)

/-- The bytes that are read, or nothing where the result is not positive. There is nothing to read
while the server has sent nothing. -/
def receiveWithTimeout (client : TcpClient) (size : Nat) (receive : Receive) :
    Option Bytes × TcpClient :=
  if client.connected = false then (none, client)
  else
    match receive with
    | .data count =>
      match client.incoming.take (min count size) with
      | [] => (none, client)
      | chunk => (some chunk, { client with incoming := client.incoming.drop (min count size) })
    | .timeout => (none, client)
    | .closed => (none, client.disconnect)

end TcpClient

structure RedisClient where
  client : TcpClient
  parser : Bytes

namespace RedisClient

def initial : RedisClient where
  client := TcpClient.initial
  parser := []

def bufferSize : Nat := 4096

def connect (redis : RedisClient) (established : Bool) : Bool × RedisClient :=
  let (connected, client) := redis.client.connect established
  (connected, { redis with client := client })

def disconnect (redis : RedisClient) : RedisClient :=
  { redis with client := redis.client.disconnect }

/-- What happens on the connection during a command: whether its bytes are taken, the reply that
the server sends to it, and how the waits for data end. After those no more data comes in time. -/
structure Exchange where
  taken : Bool
  reply : Message
  receives : List Receive

/-- The loop that reads on while there is no message. -/
def readOn (redis : RedisClient) : List Receive → RedisClient
  | [] => redis
  | receive :: receives =>
    if Parser.hasMessage redis.parser = false ∧ redis.client.connected = true then
      match redis.client.receiveWithTimeout bufferSize receive with
      | (some chunk, client) =>
        readOn { client := client, parser := Parser.feed redis.parser chunk } receives
      | (none, client) => { redis with client := client }
    else redis

/-- The end of `send_command`. Nothing is known of the program once the parser has read outside
its buffer. -/
def parseReply (redis : RedisClient) : Option (Message × RedisClient) :=
  match Parser.parseMessage redis.parser with
  | (.message response, rest) => some (response, { redis with parser := rest })
  | (.nullptr, rest) =>
    some (errorResponse (text "Failed to parse response"), { redis with parser := rest })
  | (.overrun, _) => none

/-- `send_command` from the first read on. -/
def receiveReply (redis : RedisClient) (receives : List Receive) : Option (Message × RedisClient) :=
  match receives with
  | [] => some (errorResponse (text "Failed to receive response"), redis)
  | receive :: receives =>
    match redis.client.receiveWithTimeout bufferSize receive with
    | (none, client) =>
      some (errorResponse (text "Failed to receive response"), { redis with client := client })
    | (some chunk, client) =>
      parseReply (readOn { client := client, parser := Parser.feed redis.parser chunk } receives)

def sendCommand (redis : RedisClient) (cmd : Message) (exchange : Exchange) :
    Option (Message × RedisClient) :=
  if redis.client.connected = false then
    some (errorResponse (text "Not connected to server"), redis)
  else
    match redis.client.sendRaw cmd.serialize exchange.taken with
    | (false, client) =>
      some (errorResponse (text "Failed to send command"), { redis with client := client })
    | (true, client) =>
      -- The server answers: its reply follows what it has sent before.
      let client := { client with incoming := client.incoming ++ exchange.reply.serialize }
      receiveReply { redis with client := client } exchange.receives

def execute (redis : RedisClient) (args : List Bytes) (exchange : Exchange) :
    Option (Message × RedisClient) :=
  if args = [] then some (errorResponse (text "Empty command"), redis)
  else redis.sendCommand (makeCommand args) exchange

/-- A call of the client. -/
inductive Op where
  | connect (established : Bool)
  | disconnect
  | execute (args : List Bytes) (exchange : Exchange)

inductive Answer where
  | connected (connected : Bool)
  | done
  | response (message : Message)

def step (redis : RedisClient) : Op → Option (Answer × RedisClient)
  | .connect established =>
    let (connected, redis) := redis.connect established
    some (.connected connected, redis)
  | .disconnect => some (.done, redis.disconnect)
  | .execute args exchange =>
    (redis.execute args exchange).map fun (message, redis) => (.response message, redis)

end RedisClient
end ScuffedRedis
