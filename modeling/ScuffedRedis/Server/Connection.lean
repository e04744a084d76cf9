import ScuffedRedis.Protocol.Parser
import ScuffedRedis.Server.KvStore

/-!
# Connections

A connection reads chunks from its socket into a buffer, the command handler feeds the whole
buffer to its parser and answers the messages it finds, and the server serves one connection
after another with the same handler. The socket is what its calls return: a list of chunks to
read, and a script of results for the sends.
-/
namespace ScuffedRedis

open Protocol

/-- What one `send` of the socket returns. -/
inductive SendResult where
  /-- So many bytes were taken, at most those that were offered. -/
  | accepted (count : Nat)
  /-- The call returned an error, and no `SIGPIPE` ended the process. -/
  | error

/-- The socket takes everything once its script has ended. `received` and `fed` record the
bytes that were read and the bytes that were passed to the parser; no code reads them. -/
structure ClientConnection where
  readBuffer : Bytes
  closed : Bool
  sends : List SendResult
  sent : Bytes
  received : Bytes
  fed : Bytes

namespace ClientConnection

def maxBufferSize : Nat := 1024 * 1024

/-- A connection that was just accepted. -/
def accept (sends : List SendResult) : ClientConnection where
  readBuffer := []
  closed := false
  sends := sends
  sent := []
  received := []
  fed := []

def close (client : ClientConnection) : ClientConnection :=
  if client.closed then client else { client with closed := true, readBuffer := [] }

/-- `chunk` is what `recv` returns, at most 4096 bytes, and nothing when the peer has closed. -/
def read (client : ClientConnection) (chunk : Bytes) : Int × ClientConnection :=
  if client.closed then (-1, client)
  else if chunk.length > 0 then
    if client.readBuffer.length + chunk.length > maxBufferSize then (-1, client.close)
    else
      (chunk.length,
        { client with
          readBuffer := client.readBuffer ++ chunk
          received := client.received ++ chunk })
  else (0, client.close)

/-- The loop of `write`, which sends until no byte of `data` is left. -/
def sendAll (client : ClientConnection) : List SendResult → Bytes → Bool × ClientConnection
  | script, [] => (true, { client with sends := script })
  | [], data => (true, { client with sends := [], sent := client.sent ++ data })
  | .accepted count :: script, data =>
    sendAll { client with sent := client.sent ++ data.take count } script (data.drop count)
  | .error :: script, _ => (false, { client with sends := script }.close)

def write (client : ClientConnection) (data : Bytes) : Bool × ClientConnection :=
  if client.closed ∨ data.length = 0 then (false, client) else client.sendAll client.sends data

def consumeBytes (client : ClientConnection) (count : Nat) : ClientConnection :=
  if count ≥ client.readBuffer.length then { client with readBuffer := [] }
  else { client with readBuffer := client.readBuffer.drop count }

end ClientConnection

/-- How a piece of the server's work ends: it returns, it reads outside a buffer, or its loop
does not end. -/
inductive Handled (α : Type) where
  | returned (result : α)
  | overrun
  | endless

def Handled.result? {α : Type} : Handled α → Option α
  | returned result => some result
  | _ => none

structure CommandHandler where
  parser : Bytes
  store : KVStore

namespace CommandHandler

def sendResponse (client : ClientConnection) (response : Message) : Bool × ClientConnection :=
  client.write response.serialize

def processRequest (handler : CommandHandler) (client : ClientConnection) (request : Message) :
    Bool × CommandHandler × ClientConnection :=
  let (response, store) := handler.store.executeCommand request
  let (success, client) := sendResponse client response
  (success, { handler with store := store }, client)

/-- The state of the loop of `handle_client`, and how it was left. -/
structure Processed where
  connectionOk : Bool
  messagesProcessed : Nat
  handler : CommandHandler
  client : ClientConnection

def processLoop : Nat → Nat → CommandHandler → ClientConnection → Handled Processed
  | 0, _, _, _ => .endless
  | fuel + 1, messagesProcessed, handler, client =>
    if Parser.hasMessage handler.parser then
      match Parser.parseMessage handler.parser with
      | (.message request, rest) =>
        let (success, handler, client) := processRequest { handler with parser := rest } client
          request
        if success then processLoop fuel (messagesProcessed + 1) handler client
        else .returned ⟨false, messagesProcessed, handler, client⟩
      | (.nullptr, rest) =>
        .returned ⟨true, messagesProcessed, { handler with parser := rest }, client⟩
      | (.overrun, _) => .overrun
    else .returned ⟨true, messagesProcessed, handler, client⟩

/-- A message takes bytes from the parser, but for strings of nearly `2^32` bytes, which can
leave it as it was. Then each answer takes a result from the script, and once that has ended
the loop repeats itself: this many iterations show how it ends. -/
def loopFuel (handler : CommandHandler) (client : ClientConnection) : Nat :=
  handler.parser.length + client.sends.length + 1

def handleClient (handler : CommandHandler) (client : ClientConnection) :
    Handled (Bool × CommandHandler × ClientConnection) :=
  if client.readBuffer = [] then .returned (true, handler, client)
  else
    let handler := { handler with parser := Parser.feed handler.parser client.readBuffer }
    let client := { client with fed := client.fed ++ client.readBuffer }
    match processLoop (loopFuel handler client) 0 handler client with
    | .returned processed =>
      let client :=
        if processed.messagesProcessed > 0 then
          processed.client.consumeBytes processed.client.readBuffer.length
        else processed.client
      .returned (processed.connectionOk, processed.handler, client)
    | .overrun => .overrun
    | .endless => .endless

end CommandHandler

namespace TcpServer

/-- The loop over one connection. The peer closes after the last chunk. -/
def handleClient : List Bytes → CommandHandler → ClientConnection →
    Handled (CommandHandler × ClientConnection)
  | [], handler, client => .returned (handler, client.close)
  | chunk :: chunks, handler, client =>
    if client.closed then .returned (handler, client)
    else
      match client.read chunk with
      | (bytesRead, client) =>
        if bytesRead ≤ 0 then .returned (handler, client.close)
        else
          match handler.handleClient client with
          | .returned (true, handler, client) => handleClient chunks handler client
          | .returned (false, handler, client) => .returned (handler, client.close)
          | .overrun => .overrun
          | .endless => .endless

/-- What a client does: the chunks that arrive from it, and how it takes the answers. -/
structure Session where
  chunks : List Bytes
  sends : List SendResult

/-- The bytes that a client gets, and the handler after it has gone. -/
def serve (handler : CommandHandler) (session : Session) : Handled (Bytes × CommandHandler) :=
  match handleClient session.chunks handler (ClientConnection.accept session.sends) with
  | .returned (handler, client) => .returned (client.sent, handler)
  | .overrun => .overrun
  | .endless => .endless

/-- The accept loop: one client after another, all with the handler of
`make_command_handler`. -/
def runBlocking : List Session → CommandHandler → Handled (List Bytes × CommandHandler)
  | [], handler => .returned ([], handler)
  | session :: sessions, handler =>
    match serve handler session with
    | .returned (sent, handler) =>
      match runBlocking sessions handler with
      | .returned (others, handler) => .returned (sent :: others, handler)
      | .overrun => .overrun
      | .endless => .endless
    | .overrun => .overrun
    | .endless => .endless

end TcpServer
end ScuffedRedis
