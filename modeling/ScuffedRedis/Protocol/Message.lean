import Mathlib

/-!
# Messages of the binary protocol

A frame is `[Type:1][Length:4][Data:N]`. `Message.serialize` writes a message as
one frame; the elements of an array are frames themselves.
-/
namespace ScuffedRedis

/-- The contents of a `std::string` or of a `std::vector<uint8_t>`. -/
abbrev Bytes := List UInt8

/-- The bytes of an ASCII string literal of the source. -/
def text (literal : String) : Bytes := literal.toList.map fun c => c.toNat.toUInt8

namespace Protocol

inductive MessageType where
  | simpleString
  | errorMsg
  | integer
  | bulkString
  | array
  | nullValue
  deriving DecidableEq, Repr

namespace MessageType

def toByte : MessageType → UInt8
  | simpleString => 0x01
  | errorMsg => 0x02
  | integer => 0x03
  | bulkString => 0x04
  | array => 0x05
  | nullValue => 0x06

/-- The enumerator with this value; the other bytes name no type. -/
def ofByte : UInt8 → Option MessageType
  | 0x01 => some simpleString
  | 0x02 => some errorMsg
  | 0x03 => some integer
  | 0x04 => some bulkString
  | 0x05 => some array
  | 0x06 => some nullValue
  | _ => none

@[simp] theorem ofByte_toByte (type : MessageType) : ofByte type.toByte = some type := by
  cases type <;> rfl

theorem toByte_of_ofByte {byte : UInt8} {type : MessageType} (named : ofByte byte = some type) :
    byte = type.toByte := by
  unfold ofByte at named
  split at named <;> cases named <;> rfl

end MessageType

/-- `type_` together with the alternative that `value_` holds. An element of an array
is a `MessagePtr`, so it may be null. -/
inductive Message where
  | monostate (type : MessageType)
  | string (type : MessageType) (str : Bytes)
  | int64 (type : MessageType) (val : Int64)
  | array (type : MessageType) (elems : List (Option Message))

/-- The four length bytes of a header, little-endian. -/
def lengthBytes (len : UInt32) : Bytes :=
  [(len &&& 0xFF).toUInt8, (len >>> 8 &&& 0xFF).toUInt8, (len >>> 16 &&& 0xFF).toUInt8,
    (len >>> 24 &&& 0xFF).toUInt8]

/-- The eight data bytes of an integer, little-endian. -/
def integerBytes (val : Int64) : Bytes :=
  (List.range 8).map fun i => (val >>> Int64.ofNat (i * 8) &&& 0xFF).toUInt64.toUInt8

/-- Type byte, length bytes, data. -/
def frame (type : MessageType) (len : UInt32) (data : Bytes) : Bytes :=
  type.toByte :: (lengthBytes len ++ data)

namespace Message

def makeSimpleString (str : Bytes) : Message := .string .simpleString str

def makeError (error : Bytes) : Message := .string .errorMsg error

def makeInteger (value : Int64) : Message := .int64 .integer value

def makeBulkString (str : Bytes) : Message := .string .bulkString str

def makeArray (array : List (Option Message)) : Message := .array .array array

def makeNull : Message := .monostate .nullValue

def getType : Message → MessageType
  | monostate type => type
  | string type _ => type
  | int64 type _ => type
  | array type _ => type

def isString (msg : Message) : Bool :=
  decide (msg.getType = .simpleString ∨ msg.getType = .bulkString)

def isError (msg : Message) : Bool := decide (msg.getType = .errorMsg)

def isArray (msg : Message) : Bool := decide (msg.getType = .array)

def asString : Message → Bytes
  | string _ str => str
  | _ => []

def asInteger : Message → Int64
  | int64 _ val => val
  | _ => 0

def asArray : Message → Option (List (Option Message))
  | array _ elems => some elems
  | _ => none

/-- The branches of `serialize` that do not recurse. Here `as_array()` is null. -/
def serializeFlat (msg : Message) : Bytes :=
  match msg.getType with
  | .simpleString | .errorMsg | .bulkString =>
    frame msg.getType (UInt32.ofNat msg.asString.length) msg.asString
  | .integer => frame .integer 8 (integerBytes msg.asInteger)
  | .array => frame .array 0 []
  | .nullValue => frame .nullValue 0 []

mutual

def serialize : Message → Bytes
  | .array .array elems =>
    frame .array (UInt32.ofNat elems.length) (serializeElements elems)
  | msg => msg.serializeFlat

/-- The loop over the elements. A null element is written as a NULL_VALUE message. -/
def serializeElements : List (Option Message) → Bytes
  | [] => []
  | some elem :: rest => elem.serialize ++ serializeElements rest
  | none :: rest => makeNull.serializeFlat ++ serializeElements rest

end

end Message

/-! ### Command and response helpers -/

def makeCommand (args : List Bytes) : Message :=
  Message.makeArray (args.map fun arg => some (Message.makeBulkString arg))

/-- The strings of a command array, or nothing when one element is not a string. -/
def commandStrings : List (Option Message) → Option (List Bytes)
  | [] => some []
  | some elem :: rest =>
    if elem.isString then (commandStrings rest).map (elem.asString :: ·) else none
  | none :: _ => none

/-- The empty list when `msg` is not a valid command. -/
def parseCommand (msg : Message) : List Bytes :=
  if msg.isArray then
    match msg.asArray with
    | some arr => (commandStrings arr).getD []
    | none => []
  else []

def okResponse : Message := Message.makeSimpleString (text "OK")

def pongResponse : Message := Message.makeSimpleString (text "PONG")

def nilResponse : Message := Message.makeNull

def errorResponse (error : Bytes) : Message := Message.makeError error

/-- Null pointers in the list are skipped. -/
def serializeMessages (messages : List (Option Message)) : Bytes :=
  messages.flatMap fun msg => match msg with
    | some msg => msg.serialize
    | none => []

end Protocol
end ScuffedRedis
