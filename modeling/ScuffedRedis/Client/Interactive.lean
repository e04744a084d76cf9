import ScuffedRedis.Client.CommandLine
import ScuffedRedis.Client.RedisClient
import ScuffedRedis.Protocol.RoundTrip

/-!
# The interactive client

`run_interactive_mode` reads lines until the input or the connection ends or the user leaves. A
line that is a command is split into arguments, executed, and its response is shown. What a line
means and what is shown for a response is also said here without the client, and the client does
so. What `TcpClient` logs is not part of what is shown.
-/
namespace ScuffedRedis
namespace RedisClient

open Foundation Protocol

/-! ### How a response is shown -/

/-- The cases of `format_response` that do not recurse. -/
def formatFlat (response : Message) : Bytes :=
  match response.getType with
  | .simpleString => response.asString
  | .errorMsg => text "(error) " ++ response.asString
  | .integer => text "(integer) " ++ text (toString response.asInteger.toInt)
  | .bulkString => text "\"" ++ response.asString ++ text "\""
  | .array => text "(empty array)"
  | .nullValue => text "(nil)"

mutual

/-- `format_response` of a response that is not null. -/
def formatResponse : Message → Bytes
  | .array .array elems =>
    if elems.isEmpty then text "(empty array)" else formatElements 0 elems
  | response => formatFlat response

/-- The loop over the elements, from the element of index `i` on. -/
def formatElements (i : Nat) : List (Option Message) → Bytes
  | [] => []
  | some elem :: rest =>
    text (toString (i + 1)) ++ text ") " ++ formatResponse elem ++
      (if rest.isEmpty then [] else text "\n") ++ formatElements (i + 1) rest
  | none :: rest =>
    text (toString (i + 1)) ++ text ") " ++ text "(nil)" ++
      (if rest.isEmpty then [] else text "\n") ++ formatElements (i + 1) rest

end

/-! ### The loop over the lines -/

def isBlank (c : UInt8) : Bool := (text " \t\r\n").contains c

/-- `trim` of `main.cpp`. -/
def trim (str : Bytes) : Bytes := (str.dropWhile isBlank).rdropWhile isBlank

/-- What the loop takes a line for. -/
inductive Typed where
  | skip
  | leave
  | help
  | command (args : List Bytes)

def typed (line : Bytes) : Typed :=
  let line := trim line
  if line = [] then .skip
  else if line = text "quit" ∨ line = text "exit" then .leave
  else if line = text "help" then .help
  else
    let args := parseCommandLine line
    if args = [] then .skip else .command args

def introduction : Bytes :=
  text "Type 'help' for commands, 'quit' to exit\n" ++
    text "========================================\n"

def promptText : Bytes := text "127.0.0.1:6380> "

def helpText : Bytes :=
  text "\nRedis Commands:\n" ++
  text "  SET key value      - Set a key to a value\n" ++
  text "  GET key            - Get value of a key\n" ++
  text "  DEL key [key ...]  - Delete one or more keys\n" ++
  text "  EXISTS key [...]   - Check if keys exist\n" ++
  text "  KEYS pattern       - Find keys matching pattern\n" ++
  text "  PING [message]     - Test connection\n" ++
  text "  ECHO message       - Echo a message\n" ++
  text "  FLUSHDB            - Clear all keys\n" ++
  text "  DBSIZE             - Get number of keys\n" ++
  text "  INFO               - Get server information\n" ++
  text "\nClient Commands:\n" ++
  text "  help               - Show this help\n" ++
  text "  quit/exit          - Exit the client\n" ++
  text "\n"

/-- The loop of `run_interactive_mode` and what follows it, over the lines of the input. Each line
comes with what would happen on the connection if it is a command. A response is never null, so
the branch for that is left out. -/
def interactiveLoop (redis : RedisClient) : List (Bytes × Exchange) → Option (Bytes × RedisClient)
  | [] =>
    if redis.client.connected = false then some (text "\nConnection to server lost\n", redis)
    else some (promptText, redis)
  | (line, exchange) :: rest =>
    if redis.client.connected = false then some (text "\nConnection to server lost\n", redis)
    else match typed line with
      | .skip => (interactiveLoop redis rest).map (Prod.map (promptText ++ ·) id)
      | .leave => some (promptText ++ text "Goodbye!\n", redis)
      | .help => (interactiveLoop redis rest).map (Prod.map (promptText ++ helpText ++ ·) id)
      | .command args =>
        match redis.execute args exchange with
        | none => none
        | some (response, redis) =>
          (interactiveLoop redis rest).map
            (Prod.map (promptText ++ formatResponse response ++ text "\n" ++ ·) id)

def runInteractiveMode (redis : RedisClient) (inputs : List (Bytes × Exchange)) :
    Option (Bytes × RedisClient) :=
  (interactiveLoop redis inputs).map (Prod.map (introduction ++ ·) id)

/-! ### What is shown for a response -/

/-- The lines with their numbers, from 1 on. -/
def numbered (lines : List Bytes) : Bytes :=
  [0x0A].intercalate (lines.mapIdx fun i line => text (toString (i + 1)) ++ text ") " ++ line)

/-- What the user should read for a response. -/
inductive Displays : Option Message → Bytes → Prop
  | missing : Displays none (text "(nil)")
  | simpleString (str) : Displays (some (Message.makeSimpleString str)) str
  | error (str) : Displays (some (Message.makeError str)) (text "(error) " ++ str)
  | integer (value : Int64) : Displays (some (Message.makeInteger value))
      (text "(integer) " ++ text (toString value.toInt))
  | bulkString (str) : Displays (some (Message.makeBulkString str)) (0x22 :: (str ++ [0x22]))
  | null : Displays (some Message.makeNull) (text "(nil)")
  | empty : Displays (some (Message.makeArray [])) (text "(empty array)")
  | array {elems lines} : elems ≠ [] → List.Forall₂ Displays elems lines →
      Displays (some (Message.makeArray elems)) (numbered lines)

/-- The line that the client writes for an element. -/
def formatElement : Option Message → Bytes
  | some elem => formatResponse elem
  | none => text "(nil)"

theorem formatElements_cons (i : Nat) (elem : Option Message) (rest : List (Option Message)) :
    formatElements i (elem :: rest) =
      text (toString (i + 1)) ++ text ") " ++ formatElement elem ++
        (if rest.isEmpty then [] else text "\n") ++ formatElements (i + 1) rest := by
  cases elem <;> rw [formatElements, formatElement]

theorem formatElements_eq (i : Nat) (elems : List (Option Message)) :
    formatElements i elems = [0x0A].intercalate ((elems.map formatElement).mapIdx fun j line =>
      text (toString (i + j + 1)) ++ text ") " ++ line) := by
  induction elems generalizing i with
  | nil => rw [formatElements]; rfl
  | cons elem rest ih =>
    -- The numbers of the rest start one further on.
    have labels : (fun (j : Nat) (line : Bytes) =>
        text (toString (i + (j + 1) + 1)) ++ text ") " ++ line) =
        fun j line => text (toString (i + 1 + j + 1)) ++ text ") " ++ line := by
      funext j line
      rw [Nat.add_right_comm i 1 j, Nat.add_assoc i j 1]
    rw [formatElements_cons, ih, List.map_cons, List.mapIdx_cons]
    simp only [Nat.add_zero, labels]
    cases rest with
    | nil => simp
    | cons next rest =>
      rw [List.map_cons, List.mapIdx_cons, List.intercalate_cons_cons]
      simp [text]

/-- The client shows what the user should read, for every response that can be built. -/
theorem displays_formatResponse {response : Message} (built : response.Encodable) :
    Displays (some response) (formatResponse response) := by
  induction built with
  | simpleString str => exact .simpleString str
  | error str => exact .error str
  | integer value => exact .integer value
  | bulkString str => exact .bulkString str
  | null => exact .null
  | array elems _ _ ih =>
    cases elems with
    | nil => exact .empty
    | cons elem rest =>
      have shown : formatResponse (.array .array (elem :: rest)) =
          numbered ((elem :: rest).map formatElement) := by
        rw [formatResponse, if_neg (by simp), formatElements_eq]
        simp only [Nat.zero_add, numbered]
      rw [Message.makeArray, shown]
      refine .array (List.cons_ne_nil _ _) (List.forall₂_map_right_iff.mpr ?_)
      rw [List.forall₂_same]
      rintro (_ | elem') member
      -- A null pointer in an array is shown as nil, too.
      · exact .missing
      · exact ih elem' member

/-! ### What a line means -/

/-- The blanks that `trim` removes. -/
def Blank (c : UInt8) : Prop := c ∈ [0x20, 0x09, 0x0D, 0x0A]

/-- The line without the blanks around it. -/
structure Stripped (line core : Bytes) : Prop where
  surrounded : ∃ left right, line = left ++ core ++ right ∧ (∀ c ∈ left, Blank c) ∧
    ∀ c ∈ right, Blank c
  starts : ∀ c ∈ core.head?, ¬ Blank c
  ends : ∀ c ∈ core.getLast?, ¬ Blank c

/-- The control characters that have an escape sequence. -/
def escapes : List (UInt8 × UInt8) := [(0x6E, 0x0A), (0x72, 0x0D), (0x74, 0x09)]

/-- The characters of a line that belong to arguments, and between them the spaces that end an
argument. -/
def lexemes (quoted : Bool) : Bytes → List (Option UInt8)
  | [] => []
  | c :: rest =>
    if c = 0x5C then
      match rest with
      | [] => []
      | escaped :: rest => some ((escapes.lookup escaped).getD escaped) :: lexemes quoted rest
    else if c = 0x22 then lexemes (!quoted) rest
    else if c = 0x20 ∧ quoted = false then none :: lexemes quoted rest
    else some c :: lexemes quoted rest

/-- The characters between two such spaces are an argument, unless there are none. -/
def arguments (lexemes : List (Option UInt8)) : List Bytes :=
  ((lexemes.splitOn none).map List.reduceOption).filter (· ≠ [])

/-- What the user means by a line. -/
inductive Means (line : Bytes) : Typed → Prop
  | leave {core} : Stripped line core → core = text "quit" ∨ core = text "exit" →
      Means line .leave
  | help : Stripped line (text "help") → Means line .help
  | skip {core} : Stripped line core → core ∉ [text "quit", text "exit", text "help"] →
      arguments (lexemes false core) = [] → Means line .skip
  | command {core} : Stripped line core → core ∉ [text "quit", text "exit", text "help"] →
      arguments (lexemes false core) ≠ [] →
      Means line (.command (arguments (lexemes false core)))

theorem isBlank_iff (c : UInt8) : isBlank c = true ↔ Blank c := by
  have blanks : text " \t\r\n" = [0x20, 0x09, 0x0D, 0x0A] := rfl
  rw [isBlank, List.contains_iff_mem, blanks, Blank]

theorem dropWhile_isBlank {left core : Bytes} (blank : ∀ c ∈ left, Blank c)
    (starts : ∀ c ∈ core.head?, ¬ Blank c) : (left ++ core).dropWhile isBlank = core := by
  rw [List.dropWhile_append_of_pos fun c member => (isBlank_iff c).mpr (blank c member)]
  cases core with
  | nil => rfl
  | cons c rest =>
    exact List.dropWhile_cons_of_neg fun first => starts c rfl ((isBlank_iff c).mp first)

theorem rdropWhile_isBlank {core right : Bytes} (blank : ∀ c ∈ right, Blank c)
    (ends : ∀ c ∈ core.getLast?, ¬ Blank c) : (core ++ right).rdropWhile isBlank = core := by
  have reversed : (right.reverse ++ core.reverse).dropWhile isBlank = core.reverse :=
    dropWhile_isBlank (fun c member => blank c (List.mem_reverse.mp member))
      (by rwa [List.head?_reverse])
  rw [List.rdropWhile, List.reverse_append, reversed, List.reverse_reverse]

/-- A line can be stripped in one way. -/
theorem Stripped.trim_eq {line core : Bytes} (stripped : Stripped line core) :
    trim line = core := by
  obtain ⟨⟨left, right, rfl, before, after⟩, starts, ends⟩ := stripped
  cases core with
  | nil =>
    -- Nothing but blanks: they are all removed at the left end.
    have blank : ∀ c ∈ left ++ [] ++ right, Blank c := by
      rw [List.append_nil]
      exact List.forall_mem_append.mpr ⟨before, after⟩
    have nothing := @dropWhile_isBlank _ [] blank nofun
    rw [List.append_nil] at nothing
    rw [trim, nothing, List.rdropWhile_nil]
  | cons c rest =>
    have front := @dropWhile_isBlank left (c :: rest ++ right) before starts
    rw [trim, List.append_assoc, front, rdropWhile_isBlank after ends]

theorem stripped_trim (line : Bytes) : Stripped line (trim line) := by
  refine ⟨⟨line.takeWhile isBlank, (line.dropWhile isBlank).rtakeWhile isBlank, ?_, ?_, ?_⟩, ?_, ?_⟩
  · rw [List.append_assoc, trim, List.rdropWhile_append_rtakeWhile,
      List.takeWhile_append_dropWhile]
  · exact fun c member => (isBlank_iff c).mp (List.mem_takeWhile_imp member)
  · exact fun c member => (isBlank_iff c).mp (List.mem_rtakeWhile_imp member)
  · intro c first
    obtain ⟨rest, whole⟩ := List.rdropWhile_prefix isBlank (line.dropWhile isBlank)
    have head : (line.dropWhile isBlank).head? = some c := by
      rw [← whole, List.head?_append, show ((line.dropWhile isBlank).rdropWhile isBlank).head? =
        some c from first, Option.some_or]
    have kept := List.head?_dropWhile_not isBlank line
    rw [head] at kept
    rw [← isBlank_iff, kept]
    exact Bool.false_ne_true
  · intro c last
    have nonempty : trim line ≠ [] := by
      rintro empty
      rw [empty] at last
      cases last
    have kept := List.rdropWhile_last_not isBlank (line.dropWhile isBlank) nonempty
    rw [Option.mem_def, List.getLast?_eq_some_getLast nonempty, Option.some.injEq] at last
    rwa [← isBlank_iff, ← last]

theorem escapeSequence_eq (c : UInt8) : escapeSequence c = (escapes.lookup c).getD c := by
  unfold escapeSequence escapes
  split_ifs with newline carriage tab backslash mark
  · subst newline
    rfl
  · subst carriage
    rfl
  · subst tab
    rfl
  · subst backslash
    rfl
  · subst mark
    rfl
  · simp only [List.lookup, beq_eq_false_iff_ne.mpr newline, beq_eq_false_iff_ne.mpr carriage,
      beq_eq_false_iff_ne.mpr tab, Option.getD_none]

theorem reduceOption_some (current : Bytes) : (current.map some).reduceOption = current := by
  simp [List.reduceOption]

theorem arguments_some (current : Bytes) :
    arguments (current.map some) = [current].filter (· ≠ []) := by
  have whole : (current.map some).splitOn none = [current.map some] :=
    List.splitOn_eq_singleton (by simp)
  rw [arguments, whole, List.map_singleton, reduceOption_some]

/-- A space ends an argument. -/
theorem arguments_space (current : Bytes) (rest : List (Option UInt8)) :
    arguments (current.map some ++ none :: rest) = [current].filter (· ≠ []) ++ arguments rest := by
  have first : (current.map some ++ none :: rest).splitOn none =
      current.map some :: rest.splitOn none :=
    List.splitOn_append_cons_self_of_not_mem (by simp) rest
  rw [arguments, first, List.map_cons, reduceOption_some, arguments, ← List.singleton_append,
    List.filter_append]

/-- The loop of `parse_command_line`, from an argument of which `current` has been read. -/
theorem scan_lexemes (args : List Bytes) (current : Bytes) (inQuotes : Bool) (line : Bytes) :
    (line.foldl scan ⟨args, current, inQuotes, false⟩).complete =
      args ++ arguments (current.map some ++ lexemes inQuotes line) := by
  -- The cases are the end, a backslash at the end, an escape, a quote, a space that ends an
  -- argument, and a character that belongs to one.
  induction inQuotes, line using lexemes.induct generalizing args current with
  | case1 inQuotes =>
    rw [lexemes, List.append_nil, arguments_some]
    by_cases empty : current = [] <;> simp [LineState.complete, empty]
  | case2 inQuotes =>
    rw [lexemes, if_pos rfl, List.append_nil, arguments_some]
    by_cases empty : current = [] <;> simp [scan, LineState.complete, empty]
  | case3 inQuotes escaped rest ih =>
    have read : scan (scan ⟨args, current, inQuotes, false⟩ 0x5C) escaped =
        ⟨args, current ++ [escapeSequence escaped], inQuotes, false⟩ := by
      simp [scan]
    rw [List.foldl_cons, List.foldl_cons, read, ih, lexemes, if_pos rfl, escapeSequence_eq]
    simp
  | case4 inQuotes rest notEscape ih =>
    have here : lexemes inQuotes (0x22 :: rest) = lexemes (!inQuotes) rest := by
      rw [lexemes.eq_def]
      rfl
    rw [List.foldl_cons, here, ← ih]
    simp [scan]
  | case5 inQuotes c rest notEscape notQuote ends ih =>
    obtain ⟨rfl, rfl⟩ := ends
    have here : lexemes false (0x20 :: rest) = none :: lexemes false rest := by
      rw [lexemes.eq_def]
      rfl
    have completed : (LineState.mk args current false false).complete =
        args ++ [current].filter (· ≠ []) := complete_unquoted args current
    have read : scan ⟨args, current, false, false⟩ 0x20 =
        ⟨args ++ [current].filter (· ≠ []), [], false, false⟩ := by
      rw [← completed]
      simp [scan]
    rw [List.foldl_cons, read, ih, here, arguments_space, List.append_assoc]
    rfl
  | case6 inQuotes c rest notEscape notQuote stays ih =>
    have here : lexemes inQuotes (c :: rest) = some c :: lexemes inQuotes rest := by
      rw [lexemes.eq_def]
      simp only [if_neg notEscape, if_neg notQuote, if_neg stays]
    have read : scan ⟨args, current, inQuotes, false⟩ c =
        ⟨args, current ++ [c], inQuotes, false⟩ := by
      rw [scan, if_neg Bool.false_ne_true, if_neg notEscape, if_neg notQuote, if_neg stays]
    rw [List.foldl_cons, read, ih, here]
    simp

theorem parseCommandLine_eq (line : Bytes) :
    parseCommandLine line = arguments (lexemes false line) :=
  scan_lexemes [] [] false line

/-- A line that is not for the client itself. -/
theorem typed_other {line core : Bytes} (trimmed : trim line = core)
    (other : core ∉ [text "quit", text "exit", text "help"]) :
    typed line = if arguments (lexemes false core) = [] then .skip
      else .command (arguments (lexemes false core)) := by
  rw [List.mem_cons, List.mem_pair, not_or, not_or] at other
  obtain ⟨quit, exit, help⟩ := other
  by_cases empty : core = []
  · subst empty
    simp only [typed, trimmed]
    rfl
  · simp only [typed, trimmed]
    rw [if_neg empty, if_neg (not_or.mpr ⟨quit, exit⟩), if_neg help, parseCommandLine_eq]

/-- The loop takes a line for what the user means by it. -/
theorem means_iff (line : Bytes) (meaning : Typed) : Means line meaning ↔ typed line = meaning := by
  constructor
  · intro means
    cases means with
    | leave stripped leaves =>
      rw [typed, stripped.trim_eq]
      rcases leaves with rfl | rfl <;> rfl
    | help stripped =>
      rw [typed, stripped.trim_eq]
      rfl
    | skip stripped other nothing => rw [typed_other stripped.trim_eq other, if_pos nothing]
    | command stripped other given => rw [typed_other stripped.trim_eq other, if_neg given]
  · rintro rfl
    have stripped := stripped_trim line
    by_cases own : trim line ∈ [text "quit", text "exit", text "help"]
    · rw [List.mem_cons, List.mem_pair] at own
      rcases own with quit | exit | help
      · rw [typed, quit]
        exact .leave stripped (.inl quit)
      · rw [typed, exit]
        exact .leave stripped (.inr exit)
      · rw [typed, help]
        exact .help (help ▸ stripped)
    · rw [typed_other rfl own]
      split_ifs with nothing
      · exact .skip stripped own nothing
      · exact .command stripped own nothing

end RedisClient
end ScuffedRedis
