import ScuffedRedis.Client.NodeClient
import ScuffedRedis.Server.ConnectionLaws

/-!
# The two encoders of commands

`buildCommand` of the Node client against `make_command` and `serialize` of the C++ code. They
differ in the lengths that they announce, code units on one side and bytes on the other.
-/
namespace ScuffedRedis
namespace ScuffedRedisClient

open Foundation Protocol

/-! ### What `buildCommand` writes -/

theorem writeUInt32LE_eq {value : Nat} (fits : value < 2 ^ 32) :
    writeUInt32LE value = some (lengthBytes (UInt32.ofNat value)) := by
  have small : (UInt32.ofNat value).toNat = value := UInt32.toNat_ofNat_of_lt' fits
  rw [writeUInt32LE, if_pos fits, lengthBytes]
  congr 1
  simp only [List.cons.injEq, and_true]
  refine ⟨?_, ?_, ?_, ?_⟩
  all_goals
    apply UInt8.toNat_inj.mp
    simp [small, Nat.shiftRight_eq_div_pow, Nat.and_two_pow_sub_one_eq_mod _ 8]

/-- An argument under the length that the Node client announces. -/
def announcedFrame (arg : String) : Bytes :=
  frame .bulkString (UInt32.ofNat (Utf8.utf16Length arg)) (Utf8.encode arg)

theorem buildArgument_eq_some {arg : String} {bytes : Bytes} :
    buildArgument arg = some bytes ↔
      Utf8.utf16Length arg < 2 ^ 32 ∧ bytes = announcedFrame arg := by
  by_cases fits : Utf8.utf16Length arg < 2 ^ 32
  · have written : buildArgument arg = some (announcedFrame arg) := by
      rw [buildArgument, writeUInt32LE_eq fits]
      rfl
    rw [written, Option.some_inj]
    exact ⟨fun same => ⟨fits, same.symm⟩, fun same => same.2.symm⟩
  · have thrown : buildArgument arg = none := by
      rw [buildArgument, writeUInt32LE, if_neg fits]
      rfl
    rw [thrown]
    exact ⟨fun built => absurd built (by simp), fun built => absurd built.1 fits⟩

theorem mapM_buildArgument_eq_some {args : List String} {buffers : List Bytes} :
    args.mapM buildArgument = some buffers ↔
      (∀ arg ∈ args, Utf8.utf16Length arg < 2 ^ 32) ∧ buffers = args.map announcedFrame := by
  induction args generalizing buffers with
  | nil => simp [eq_comm]
  | cons arg args ih =>
    rw [List.mapM_cons, List.forall_mem_cons, List.map_cons]
    constructor
    · intro built
      obtain ⟨bytes, first, built⟩ := Option.bind_eq_some_iff.mp built
      obtain ⟨others, rest, built⟩ := Option.bind_eq_some_iff.mp built
      obtain ⟨fits, rfl⟩ := buildArgument_eq_some.mp first
      obtain ⟨each, rfl⟩ := ih.mp rest
      exact ⟨⟨fits, each⟩, (Option.some.inj built).symm⟩
    · rintro ⟨⟨fits, each⟩, rfl⟩
      rw [buildArgument_eq_some.mpr ⟨fits, rfl⟩, ih.mpr ⟨each, rfl⟩]
      rfl

theorem buildCommand_eq_some {args : List String} {bytes : Bytes} :
    buildCommand args = some bytes ↔
      args.length < 2 ^ 32 ∧ (∀ arg ∈ args, Utf8.utf16Length arg < 2 ^ 32) ∧
        bytes = frame .array (UInt32.ofNat args.length) (args.flatMap announcedFrame) := by
  constructor
  · intro built
    -- Each step of the encoder that could throw did not.
    obtain ⟨len, header, built⟩ := Option.bind_eq_some_iff.mp built
    obtain ⟨buffers, each, built⟩ := Option.bind_eq_some_iff.mp built
    obtain ⟨fits, rfl⟩ := mapM_buildArgument_eq_some.mp each
    have few : args.length < 2 ^ 32 := by
      by_contra many
      rw [writeUInt32LE, if_neg many] at header
      cases header
    rw [writeUInt32LE_eq few] at header
    cases header
    exact ⟨few, fits, (Option.some.inj built).symm⟩
  · rintro ⟨few, fits, rfl⟩
    rw [buildCommand, writeUInt32LE_eq few, mapM_buildArgument_eq_some.mpr ⟨fits, rfl⟩]
    rfl

/-! ### Equal bytes -/

theorem frame_length_inj {type : MessageType} {len len' : UInt32} {data : Bytes}
    (same : frame type len data = frame type len' data) : len = len' := by
  have header := readHeader_frame type len data []
  rw [same, readHeader_frame] at header
  exact (Prod.mk.inj (Option.some.inj header)).2.symm

/-- The bodies are the same when every two lengths are, as 32-bit words. -/
theorem announcedFrames_eq_iff (args : List String) :
    args.flatMap announcedFrame = argumentFrames (args.map Utf8.encode) ↔
      ∀ arg ∈ args,
        UInt32.ofNat (Utf8.utf16Length arg) = UInt32.ofNat (Utf8.encode arg).length := by
  induction args with
  | nil => simp [argumentFrames]
  | cons arg args ih =>
    rw [List.flatMap_cons, List.map_cons, argumentFrames, List.flatMap_cons, List.forall_mem_cons]
    constructor
    · intro same
      obtain ⟨first, rest⟩ := List.append_inj same (by simp [announcedFrame])
      exact ⟨frame_length_inj first, ih.mp rest⟩
    · rintro ⟨first, rest⟩
      rw [announcedFrame, first]
      exact congrArg _ (ih.mpr rest)

/-! ### What the parser takes -/

/-- Only an array is taken from the frame of an array, and its elements from the body. -/
theorem takes_arrayFrame_inv {count : UInt32} {body rest : Bytes} {msg : Message}
    (takes : Takes (frame .array count body) [msg] rest) :
    ∃ elems : List Message, msg = Message.makeArray (elems.map some) ∧
      elems.length = count.toNat ∧ Takes body elems rest := by
  have header := readHeader_frame .array count body []
  rw [List.append_nil] at header
  exact takes.array_inv header

theorem takes_makeCommand {args : List Bytes} (few : args.length < 2 ^ 32)
    (short : ∀ arg ∈ args, arg.length ≤ 2 ^ 32 - 6) :
    Takes (makeCommand args).serialize [makeCommand args] [] := by
  have built : (makeCommand args).Encodable := by
    refine .array _ (by rwa [List.length_map]) fun elem listed => ?_
    obtain ⟨arg, member, wrapped⟩ := List.mem_map.mp listed
    cases wrapped
    exact .bulkString arg (short arg member)
  have takes := takes_serialize built []
  rwa [List.append_nil, readBack_makeCommand] at takes

/-- Strings that are taken have lengths of 32 bits, and each takes its length and five, as a
32-bit word, from the buffer. -/
theorem length_of_takes_strings {buffer rest : Bytes} {elems : List Message}
    (takes : Takes buffer elems rest)
    {strs : List Bytes} (strings : commandStrings (elems.map some) = some strs) :
    buffer.length = rest.length + (strs.map fun str => (5 + str.length) % 2 ^ 32).sum := by
  induction takes generalizing strs with
  | done =>
    cases strings
    rfl
  | @text buffer msgs rest type length header isText enough range _ ih =>
    rw [List.map_cons, commandStrings] at strings
    split at strings
    next =>
      obtain ⟨others, later, rfl⟩ := Option.map_eq_some_iff.mp strings
      -- The string has the announced length, and the bytes taken are that and five in 32 bits.
      have remaining := ih later
      rw [List.length_drop] at remaining
      have word : (5 + length).toNat = (5 + length.toNat) % 2 ^ 32 := by
        rw [UInt32.toNat_add]
        rfl
      rw [List.map_cons, List.sum_cons, Message.asString, List.length_drop, List.length_take,
        Nat.min_eq_left range, Nat.add_sub_cancel_left, ← word]
      omega
    next => cases strings
  | integer => cases strings
  | null => cases strings
  | array => cases strings

theorem length_argumentFrames_eq (args : List Bytes) :
    (argumentFrames args).length = (args.map fun arg => 5 + arg.length).sum := by
  simp only [argumentFrames, List.length_flatMap, length_frame]

/-- Reducing the terms of a sum loses something unless all of them are small. -/
theorem sum_map_mod_eq_iff (modulus : Nat) (terms : List Nat) :
    (terms.map (· % modulus)).sum ≤ terms.sum ∧
      ((terms.map (· % modulus)).sum = terms.sum ↔ ∀ term ∈ terms, term % modulus = term) := by
  induction terms with
  | nil => simp
  | cons term terms ih =>
    obtain ⟨less, same⟩ := ih
    have reduced := Nat.mod_le term modulus
    rw [List.map_cons, List.sum_cons, List.sum_cons, List.forall_mem_cons, ← same]
    omega

/-- A command that is taken whole, with no byte left, has strings within the 32-bit sum. -/
theorem short_of_takes {args : List Bytes} {elems : List Message}
    (takes : Takes (argumentFrames args) elems [])
    (strings : commandStrings (elems.map some) = some args) :
    ∀ arg ∈ args, arg.length ≤ 2 ^ 32 - 6 := by
  have total := length_of_takes_strings takes strings
  rw [length_argumentFrames_eq, List.length_nil, Nat.zero_add] at total
  have each := (sum_map_mod_eq_iff (2 ^ 32) (args.map fun arg => 5 + arg.length)).2.mp
    (by rw [List.map_map]; exact total.symm)
  intro arg listed
  have small := Nat.mod_lt (5 + arg.length) (show 0 < 2 ^ 32 by decide)
  rw [each _ (List.mem_map_of_mem listed)] at small
  omega

/-! ### Agreement -/

/-- Both encoders write the same bytes, and the parser takes one array from them, the command
with these arguments, and leaves no byte over. -/
def Agree (args : List String) : Prop :=
  ∃ bytes, buildCommand args = some bytes ∧
    bytes = (makeCommand (args.map Utf8.encode)).serialize ∧
    Parser.hasMessage (Parser.feed [] bytes) = true ∧
    ∃ msg, Parser.parseMessage (Parser.feed [] bytes) = (.message msg, []) ∧
      msg.isArray = true ∧ parseCommand msg = args.map Utf8.encode

/-- A valid command has the strings that `parse_command` gives, unless it gives none. -/
theorem commandStrings_of_parseCommand {elems : List Message} {arg : Bytes} {args : List Bytes}
    (command : parseCommand (Message.makeArray (elems.map some)) = arg :: args) :
    commandStrings (elems.map some) = some (arg :: args) := by
  change (commandStrings (elems.map some)).getD [] = arg :: args at command
  cases found : commandStrings (elems.map some) with
  | none =>
    rw [found, Option.getD_none] at command
    cases command
  | some strs =>
    rw [found, Option.getD_some] at command
    rw [command]

/-- The two lengths of an argument are equal and within the 32-bit sum of the parser. -/
def Measured (arg : String) : Prop :=
  Utf8.utf16Length arg = (Utf8.encode arg).length ∧ Utf8.utf16Length arg ≤ 2 ^ 32 - 6

theorem measured_iff (arg : String) :
    Measured arg ↔
      (∀ c ∈ arg.toList, c.toNat < 0x80) ∧ Utf8.utf16Length arg ≤ 2 ^ 32 - 6 := by
  rw [Measured, (Utf8.utf16Length_le arg).2]

theorem commandFrame_encode (args : List String) :
    (makeCommand (args.map Utf8.encode)).serialize =
      frame .array (UInt32.ofNat args.length) (argumentFrames (args.map Utf8.encode)) := by
  have shape := commandFrame_eq (args.map Utf8.encode)
  rwa [commandFrame, List.length_map] at shape

theorem Agree.measured {args : List String} (agree : Agree args) :
    args.length < 2 ^ 32 ∧ ∀ arg ∈ args, Measured arg := by
  obtain ⟨bytes, built, same, -, msg, parsed, -, command⟩ := agree
  obtain ⟨few, fits, rfl⟩ := buildCommand_eq_some.mp built
  refine ⟨few, fun arg listed => ?_⟩
  -- Equal bytes: the lengths are equal as words.
  have bodies : args.flatMap announcedFrame = argumentFrames (args.map Utf8.encode) := by
    rw [commandFrame_encode, frame, frame] at same
    exact List.append_cancel_left (List.cons.inj same).2
  have words := (announcedFrames_eq_iff args).mp bodies arg listed
  obtain ⟨elems, rfl, -, inner⟩ := takes_arrayFrame_inv (Parser.takes_of_parseMessage parsed)
  -- The list is not empty, so the command was valid and has all its strings.
  have strings : commandStrings (elems.map some) = some (args.map Utf8.encode) := by
    cases args with
    | nil => cases listed
    | cons first others => exact commandStrings_of_parseCommand command
  -- Nothing is left over: the lengths are short, so as numbers they are equal too.
  rw [bodies] at inner
  have short := short_of_takes inner strings _ (List.mem_map_of_mem listed)
  have lengths : Utf8.utf16Length arg = (Utf8.encode arg).length := by
    rw [← UInt32.toNat_inj, UInt32.toNat_ofNat_of_lt' (fits arg listed),
      UInt32.toNat_ofNat_of_lt' (Nat.lt_of_le_of_lt short (by decide))] at words
    exact words
  exact ⟨lengths, lengths ▸ short⟩

theorem agree_of_measured {args : List String} (few : args.length < 2 ^ 32)
    (measured : ∀ arg ∈ args, Measured arg) : Agree args := by
  have bodies : args.flatMap announcedFrame = argumentFrames (args.map Utf8.encode) :=
    (announcedFrames_eq_iff args).mpr fun arg listed => by rw [(measured arg listed).1]
  have whole : frame .array (UInt32.ofNat args.length) (args.flatMap announcedFrame) =
      (makeCommand (args.map Utf8.encode)).serialize := by rw [commandFrame_encode, bodies]
  have takes : Takes (makeCommand (args.map Utf8.encode)).serialize
      [makeCommand (args.map Utf8.encode)] [] := by
    apply takes_makeCommand
    · rwa [List.length_map]
    · intro str listed
      obtain ⟨arg, member, rfl⟩ := List.mem_map.mp listed
      obtain ⟨same, short⟩ := measured arg member
      exact same ▸ short
  have built := buildCommand_eq_some.mpr ⟨few, fun arg listed =>
    Nat.lt_of_le_of_lt (measured arg listed).2 (by decide), whole.symm⟩
  refine ⟨_, built, rfl, ?_, _, Parser.parseMessage_of_takes takes, rfl,
    parseCommand_makeCommand _⟩
  -- The header is there, so the loop of the server would call the parser.
  have header := readHeader_frame .array (UInt32.ofNat args.length)
    (argumentFrames (args.map Utf8.encode)) []
  rw [List.append_nil] at header
  rw [commandFrame_encode]
  exact hasMessage_array header

theorem agree_iff (args : List String) :
    Agree args ↔ args.length < 2 ^ 32 ∧
      ∀ arg ∈ args, (∀ c ∈ arg.toList, c.toNat < 0x80) ∧ Utf8.utf16Length arg ≤ 2 ^ 32 - 6 := by
  simp only [← measured_iff]
  exact ⟨Agree.measured, fun both => agree_of_measured both.1 both.2⟩

/-- One character of two bytes. -/
theorem accented_disagrees : ¬ ∀ args : List String, Agree args := fun agree => by
  obtain ⟨bytes, built, same, -⟩ := agree ["GET", "é"]
  have different : buildCommand ["GET", "é"] ≠
      some (makeCommand (["GET", "é"].map Utf8.encode)).serialize := by decide
  rw [same] at built
  exact different built

end ScuffedRedisClient
end ScuffedRedis
