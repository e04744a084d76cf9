import ScuffedRedis.Protocol.Message

/-!
# The incremental parser

A `Parser` is its `buffer_`. Each function takes the buffer before the call and
returns the buffer after it. Allocations are taken to succeed.
-/
namespace ScuffedRedis.Protocol

/-- How a call that parses ends. -/
inductive ParseResult where
  | message (msg : Message)
  | nullptr
  /-- A string or an integer was read past the end of the buffer, which is undefined
  behaviour: nothing is known of the program from here on. -/
  | overrun

namespace Parser

def feed (buffer data : Bytes) : Bytes := buffer ++ data

def hasBytes (buffer : Bytes) (count : Nat) : Bool := decide (count ≤ buffer.length)

def consumeBytes (buffer : Bytes) (count : Nat) : Bytes :=
  if buffer.length ≤ count then [] else buffer.drop count

/-- `length = 0`, then `length |= buffer_[k + 1] << (8 * k)` for `k` from 0 to 3. -/
def lengthField (b1 b2 b3 b4 : UInt8) : UInt32 :=
  (0 : UInt32) ||| b1.toUInt32 ||| b2.toUInt32 <<< 8 ||| b3.toUInt32 <<< 16 |||
    b4.toUInt32 <<< 24

/-- The type byte and the length field, when the five header bytes are there. -/
def readHeader : Bytes → Option (UInt8 × UInt32)
  | type :: b1 :: b2 :: b3 :: b4 :: _ => some (type, lengthField b1 b2 b3 b4)
  | _ => none

/-- For an array the header is enough. The sum `5 + length` is a `uint32_t`. -/
def hasMessage (buffer : Bytes) : Bool :=
  match readHeader buffer with
  | none => false
  | some (type, length) =>
    if MessageType.ofByte type = some .array then true
    else hasBytes buffer (5 + length).toNat

/-- The bytes from `start` up to `stop`, when they lie in the buffer. -/
def copyRange (buffer : Bytes) (start stop : Nat) : Option Bytes :=
  if stop ≤ buffer.length then some ((buffer.take stop).drop start) else none

/-- Shared body of the three string parsers. The bound that is tested and the count
that is consumed are `5 + length` in 32 bits; the range that is read ends at
`buffer_.begin() + 5 + length`, which is not reduced. -/
def parseText (make : Bytes → Message) (length : UInt32) (buffer : Bytes) :
    ParseResult × Bytes :=
  if hasBytes buffer (5 + length).toNat then
    match copyRange buffer 5 (5 + length.toNat) with
    | some str => (.message (make str), consumeBytes buffer (5 + length).toNat)
    | none => (.overrun, buffer)
  else (.nullptr, buffer)

def parseSimpleString (length : UInt32) (buffer : Bytes) : ParseResult × Bytes :=
  parseText Message.makeSimpleString length buffer

def parseError (length : UInt32) (buffer : Bytes) : ParseResult × Bytes :=
  parseText Message.makeError length buffer

def parseBulkString (length : UInt32) (buffer : Bytes) : ParseResult × Bytes :=
  parseText Message.makeBulkString length buffer

/-- `value |= static_cast<int64_t>(buffer_[5 + i]) << (i * 8)` for `i` from 0 to 7. -/
def integerValue (data : Bytes) : Int64 :=
  (List.range 8).foldl
    (fun value i => value ||| (data.getD i 0).toUInt64.toInt64 <<< Int64.ofNat (i * 8)) 0

def parseInteger (length : UInt32) (buffer : Bytes) : ParseResult × Bytes :=
  if length ≠ 8 ∨ hasBytes buffer (5 + 8) = false then (.nullptr, buffer)
  else
    match copyRange buffer 5 (5 + 8) with
    | some data => (.message (Message.makeInteger (integerValue data)), consumeBytes buffer (5 + 8))
    | none => (.overrun, buffer)

/-- The element loop of `parse_array`: `count` more elements after those in `array`. -/
def parseElements (parse : Bytes → ParseResult × Bytes) :
    Nat → List (Option Message) → Bytes → ParseResult × Bytes
  | 0, array, buffer => (.message (Message.makeArray array), buffer)
  | count + 1, array, buffer =>
    match parse buffer with
    | (.message elem, rest) => parseElements parse count (array ++ [some elem]) rest
    | (.nullptr, rest) => (.nullptr, rest)
    | (.overrun, rest) => (.overrun, rest)

def parseArray (parse : Bytes → ParseResult × Bytes) (count : UInt32) (buffer : Bytes) :
    ParseResult × Bytes :=
  parseElements parse count.toNat [] (consumeBytes buffer 5)

/-- The body of `parse_message`, with `parse` for the recursive calls. An unknown type
clears the buffer. -/
def parseBody (parse : Bytes → ParseResult × Bytes) (buffer : Bytes) : ParseResult × Bytes :=
  match readHeader buffer with
  | none => (.nullptr, buffer)
  | some (type, length) =>
    match MessageType.ofByte type with
    | some .simpleString => parseSimpleString length buffer
    | some .errorMsg => parseError length buffer
    | some .integer => parseInteger length buffer
    | some .bulkString => parseBulkString length buffer
    | some .array => parseArray parse length buffer
    | some .nullValue => (.message Message.makeNull, consumeBytes buffer 5)
    | none => (.nullptr, [])

/-- `parse_message` down to a given depth of nesting. -/
def parseNested : Nat → Bytes → ParseResult × Bytes
  | 0, buffer => (.nullptr, buffer)
  | depth + 1, buffer => parseBody (parseNested depth) buffer

/-- Every level of nesting takes five header bytes, so the buffer bounds the depth
(`parseMessage_eq`). -/
def parseMessage (buffer : Bytes) : ParseResult × Bytes :=
  parseNested (buffer.length + 1) buffer

end Parser
end ScuffedRedis.Protocol
