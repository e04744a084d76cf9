import ScuffedRedis.Protocol.Parser

/-!
# The simple server

`simple_server.cpp`: requests and answers are strings behind their lengths. A connection has a
buffer of `k_max_msg` bytes for what arrives, and one poll loop serves all connections over one
map. The system calls are their results.
-/
namespace ScuffedRedis
namespace SimpleServer

open Protocol

def kMaxMsg : Nat := 4096

structure Conn where
  wantRead : Bool
  wantWrite : Bool
  wantClose : Bool
  incoming : Bytes
  outgoing : Bytes

/-- The contents of `g_map`. -/
abbrev Map := Bytes → Option Bytes

/-- A connection with the map that all connections share. -/
structure Session where
  gMap : Map
  conn : Conn

/-- The assertion that fails, with which the program ends. -/
inductive Abort where
  | readAssertion
  | writeAssertion
  deriving DecidableEq

def bufAppend (buf data : Bytes) : Bytes := buf ++ data

def bufConsume (buf : Bytes) (n : Nat) : Bytes := buf.drop n

/-! ### Requests -/

def space : UInt8 := 0x20

/-- `str.find(' ', pos)`, where `npos` is `none`. -/
def find (str : Bytes) (pos : Nat) : Option Nat :=
  ((str.drop pos).idxOf? space).map fun i => pos + i

/-- The length as a `uint32_t`, and so many bytes of the response. -/
def respond (out resp : Bytes) : Bytes :=
  let len := UInt32.ofNat resp.length
  bufAppend (bufAppend out (lengthBytes len)) (resp.take len.toNat)

/-- The map and the output after a request. A GET without a space and a SET without two are not
answered. -/
def doRequest (gMap : Map) (cmd out : Bytes) : Map × Bytes :=
  if cmd.take 4 = text "PING" then (gMap, respond out (text "PONG"))
  else if cmd.take 3 = text "GET" then
    match find cmd 0 with
    | some _ =>
      let key := cmd.drop 4
      (gMap, respond out ((gMap key).getD []))
    | none => (gMap, out)
  else if cmd.take 3 = text "SET" then
    match find cmd 0 with
    | some space1 =>
      match find cmd (space1 + 1) with
      | some space2 =>
        let key := (cmd.drop (space1 + 1)).take (space2 - space1 - 1)
        let value := cmd.drop (space2 + 1)
        (Function.update gMap key (some value), respond out (text "OK"))
      | none => (gMap, out)
    | none => (gMap, out)
  else (gMap, respond out (text "ERROR"))

/-- The length at the front of the buffer, once its four bytes are there. -/
def readLen : Bytes → Option UInt32
  | b0 :: b1 :: b2 :: b3 :: _ => some (Parser.lengthField b0 b1 b2 b3)
  | _ => none

def tryOneRequest (s : Session) : Bool × Session :=
  match readLen s.conn.incoming with
  | none => (false, s)
  | some len =>
    if len.toNat > kMaxMsg then (false, { s with conn := { s.conn with wantClose := true } })
    else if (4 + len).toNat > s.conn.incoming.length then (false, s)
    else
      let request := (s.conn.incoming.drop 4).take len.toNat
      let (gMap, outgoing) := doRequest s.gMap request s.conn.outgoing
      (true,
        { gMap := gMap
          conn :=
            { s.conn with
              incoming := bufConsume s.conn.incoming (4 + len).toNat
              outgoing := outgoing
              wantWrite := true } })

/-- `while (try_one_request(conn)) {}`. Every request takes at least four bytes. -/
def tryRequests : Nat → Session → Session
  | 0, s => s
  | fuel + 1, s =>
    match tryOneRequest s with
    | (true, s) => tryRequests fuel s
    | (false, s) => s

/-! ### Reading and writing -/

/-- What `read` returns: bytes, of which there are none at the end of the stream, `EAGAIN`, or
another error. -/
inductive ReadResult where
  | bytes (chunk : Bytes)
  | again
  | failed

/-- The buffer is resized to `k_max_msg` before the call and cut after it, but not when it
failed. -/
def handleRead (s : Session) (result : ReadResult) : Except Abort Session :=
  if s.conn.incoming.length < kMaxMsg then
    let cap := kMaxMsg - s.conn.incoming.length
    match result with
    | .again => .ok s
    | .failed | .bytes [] =>
      .ok { s with conn := { s.conn with
        incoming := s.conn.incoming ++ List.replicate cap 0
        wantClose := true } }
    | .bytes chunk =>
      let incoming := s.conn.incoming ++ chunk
      if incoming.length ≤ kMaxMsg then
        .ok (tryRequests (incoming.length + 1)
          { s with conn := { s.conn with incoming := incoming } })
      else .error .readAssertion
  else .error .readAssertion

/-- What `write` returns: a number of bytes, `EAGAIN`, or another error. -/
inductive WriteResult where
  | wrote (count : Nat)
  | again
  | failed

def handleWrite (conn : Conn) (result : WriteResult) : Except Abort Conn :=
  if conn.outgoing.length > 0 then
    match result with
    | .again => .ok conn
    | .failed => .ok { conn with wantClose := true }
    | .wrote count =>
      let outgoing := bufConsume conn.outgoing count
      if outgoing.length = 0 then
        .ok { conn with outgoing := outgoing, wantRead := true, wantWrite := false }
      else .ok { conn with outgoing := outgoing }
  else .error .writeAssertion

/-! ### The poll loop -/

/-- A connection that was just accepted. -/
def accepted : Conn where
  wantRead := true
  wantWrite := false
  wantClose := false
  incoming := []
  outgoing := []

/-- What is left of a connection at the end of a round. -/
def Conn.kept (conn : Conn) : Option Conn := if conn.wantClose then none else some conn

theorem Conn.kept_closing {conn : Conn} (closing : conn.wantClose = true) : conn.kept = none :=
  if_pos closing

theorem Conn.kept_open {conn : Conn} (isOpen : conn.wantClose = false) : conn.kept = some conn :=
  if_neg (by rw [isOpen]; exact Bool.false_ne_true)

/-- All open connections by their descriptors. -/
structure Server where
  gMap : Map
  fd2conn : Nat → Option Conn

def start : Server where
  gMap := fun _ => none
  fd2conn := fun _ => none

/-- What `poll` reports of one descriptor, with the results of the calls that follow. -/
inductive Event where
  | accept (fd : Nat)
  | ready (fd : Nat) (pollin : Option ReadResult) (pollout : Option WriteResult)

/-- The branch for `POLLIN`. -/
def serveRead (s : Session) (pollin : Option ReadResult) : Except Abort Session :=
  match pollin with
  | some result => if s.conn.wantRead then handleRead s result else .ok s
  | none => .ok s

/-- The branch for `POLLOUT`. -/
def serveWrite (s : Session) (pollout : Option WriteResult) : Except Abort Session :=
  match pollout with
  | some result =>
    if s.conn.wantWrite then (handleWrite s.conn result).map fun conn => { s with conn := conn }
    else .ok s
  | none => .ok s

/-- The handlers of one connection in one round. `poll` reports `POLLOUT` only where it was asked
for it, before the read. -/
def serveConn (s : Session) (pollin : Option ReadResult) (pollout : Option WriteResult) :
    Except Abort Session := do
  let writable := if s.conn.wantWrite then pollout else none
  let s ← serveRead s pollin
  serveWrite s writable

/-- A descriptor in use is not accepted again, and one that is not in use is not reported. -/
def step (server : Server) : Event → Except Abort Server
  | .accept fd =>
    match server.fd2conn fd with
    | some _ => .ok server
    | none => .ok { server with fd2conn := Function.update server.fd2conn fd (some accepted) }
  | .ready fd pollin pollout =>
    match server.fd2conn fd with
    | none => .ok server
    | some conn => do
      let s ← serveConn { gMap := server.gMap, conn := conn } pollin pollout
      return {
        gMap := s.gMap
        fd2conn := Function.update server.fd2conn fd s.conn.kept }

def run (server : Server) (events : List Event) : Except Abort Server := events.foldlM step server

end SimpleServer
end ScuffedRedis
