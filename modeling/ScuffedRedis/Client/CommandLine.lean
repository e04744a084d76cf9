import ScuffedRedis.Protocol.Message

/-!
# The command line of the client

`RedisClient::parse_command_line` splits what was typed into arguments, one character after the
other. A quote opens or closes a part where spaces belong to the argument, and a backslash takes
the next character as it is or as a control character. An argument is complete at a space outside
quotes only if it has a character, so the empty argument `""` is lost.
-/
namespace ScuffedRedis.RedisClient

/-- The variables of the loop. -/
structure LineState where
  args : List Bytes
  current : Bytes
  inQuotes : Bool
  escapeNext : Bool
  deriving DecidableEq, Repr

namespace LineState

def initial : LineState where
  args := []
  current := []
  inQuotes := false
  escapeNext := false

/-- `args.push_back(current)`, unless `current` is empty. -/
def complete (state : LineState) : List Bytes :=
  if state.current = [] then state.args else state.args ++ [state.current]

end LineState

/-- The character that an escape sequence stands for. -/
def escapeSequence (c : UInt8) : UInt8 :=
  if c = 0x6E then 0x0A
  else if c = 0x72 then 0x0D
  else if c = 0x74 then 0x09
  else if c = 0x5C then 0x5C
  else if c = 0x22 then 0x22
  else c

/-- The body of the loop. -/
def scan (state : LineState) (c : UInt8) : LineState :=
  if state.escapeNext then
    { state with current := state.current ++ [escapeSequence c], escapeNext := false }
  else if c = 0x5C then { state with escapeNext := true }
  else if c = 0x22 then { state with inQuotes := !state.inQuotes }
  else if c = 0x20 ∧ state.inQuotes = false then
    { state with args := state.complete, current := [] }
  else { state with current := state.current ++ [c] }

/-- The last argument is added after the loop. -/
def parseCommandLine (line : Bytes) : List Bytes :=
  (line.foldl scan .initial).complete

/-! ### Writing a command line -/

/-- A character between quotes. -/
def escape (c : UInt8) : Bytes :=
  if c = 0x5C then [0x5C, 0x5C]
  else if c = 0x22 then [0x5C, 0x22]
  else if c = 0x0A then [0x5C, 0x6E]
  else if c = 0x0D then [0x5C, 0x72]
  else if c = 0x09 then [0x5C, 0x74]
  else [c]

def quote (arg : Bytes) : Bytes := 0x22 :: (arg.flatMap escape ++ [0x22])

/-- The arguments between quotes, with one space after each but the last. -/
def commandLine : List Bytes → Bytes
  | [] => []
  | [arg] => quote arg
  | arg :: next :: rest => quote arg ++ 0x20 :: commandLine (next :: rest)

/-! ### What a line reads as -/

/-- No argument is completed while it is empty. -/
theorem nil_notMem_complete {state : LineState} (kept : [] ∉ state.args) :
    [] ∉ state.complete := by
  unfold LineState.complete
  split
  · exact kept
  · rename_i nonempty
    simp only [List.mem_append, List.mem_singleton, not_or]
    exact ⟨kept, fun same => nonempty same.symm⟩

theorem nil_notMem_scan {state : LineState} (kept : [] ∉ state.args) (c : UInt8) :
    [] ∉ (scan state c).args := by
  unfold scan
  split_ifs
  · exact kept
  · exact kept
  · exact kept
  · exact nil_notMem_complete kept
  · exact kept

/-- An empty argument comes from no line at all. -/
theorem nil_notMem_parseCommandLine (line : Bytes) : [] ∉ parseCommandLine line := by
  have run : ∀ state : LineState, [] ∉ state.args → [] ∉ (line.foldl scan state).args := by
    induction line with
    | nil => exact fun _ kept => kept
    | cons c rest ih => exact fun state kept => ih _ (nil_notMem_scan kept c)
  exact nil_notMem_complete (run _ (by simp [LineState.initial]))

/-- Between quotes, with no escape begun. -/
def quoted (args : List Bytes) (current : Bytes) : LineState where
  args := args
  current := current
  inQuotes := true
  escapeNext := false

/-- Outside quotes, with no escape begun. -/
def unquoted (args : List Bytes) (current : Bytes) : LineState where
  args := args
  current := current
  inQuotes := false
  escapeNext := false

variable (args : List Bytes) (current : Bytes)

/-- Two characters where `c` has an escape sequence, else one. -/
theorem scan_escape (c : UInt8) :
    (escape c).foldl scan (quoted args current) = quoted args (current ++ [c]) := by
  unfold escape
  split_ifs with backslash mark newline carriage tab
  · simp [scan, quoted, escapeSequence, backslash]
  · simp [scan, quoted, escapeSequence, mark]
  · simp [scan, quoted, escapeSequence, newline]
  · simp [scan, quoted, escapeSequence, carriage]
  · simp [scan, quoted, escapeSequence, tab]
  · simp [scan, quoted, backslash, mark]

theorem scan_escapes (arg : Bytes) :
    (arg.flatMap escape).foldl scan (quoted args current) = quoted args (current ++ arg) := by
  induction arg generalizing current with
  | nil => simp
  | cons c rest ih =>
    rw [List.flatMap_cons, List.foldl_append, scan_escape, ih, List.append_assoc]
    rfl

theorem scan_quote (arg : Bytes) :
    (quote arg).foldl scan (unquoted args current) = unquoted args (current ++ arg) := by
  have opened : scan (unquoted args current) 0x22 = quoted args current := by
    simp [scan, unquoted, quoted]
  have closed : scan (quoted args (current ++ arg)) 0x22 = unquoted args (current ++ arg) := by
    simp [scan, unquoted, quoted]
  rw [quote, List.foldl_cons, opened, List.foldl_append, scan_escapes, List.foldl_cons, closed,
    List.foldl_nil]

theorem complete_unquoted (arg : Bytes) :
    (unquoted args arg).complete = args ++ [arg].filter (· ≠ []) := by
  by_cases empty : arg = []
  · simp [LineState.complete, unquoted, empty]
  · simp [LineState.complete, unquoted, empty]

theorem scan_space (arg : Bytes) :
    scan (unquoted args arg) 0x20 = unquoted (args ++ [arg].filter (· ≠ [])) [] := by
  rw [← complete_unquoted]
  simp [scan, unquoted]

/-- Each argument is read up to the space after it, and it is added unless it is empty. -/
theorem scan_commandLine (rest : List Bytes) :
    ((commandLine rest).foldl scan (unquoted args [])).complete =
      args ++ rest.filter (· ≠ []) := by
  induction rest using commandLine.induct generalizing args with
  | case1 => simp [commandLine, LineState.complete, unquoted]
  | case2 arg => rw [commandLine, scan_quote, List.nil_append, complete_unquoted]
  | case3 arg next rest ih =>
    rw [commandLine, List.foldl_append, scan_quote, List.nil_append, List.foldl_cons, scan_space,
      ih, List.append_assoc, ← List.filter_append]
    rfl

/-- What is typed between quotes is read back without its empty arguments. -/
theorem parseCommandLine_commandLine (args : List Bytes) :
    parseCommandLine (commandLine args) = args.filter (· ≠ []) :=
  scan_commandLine [] args

/-- **Reading inverts quoting exactly without empty arguments.** -/
theorem parse_quoted_iff (args : List Bytes) :
    parseCommandLine (commandLine args) = args ↔ [] ∉ args := by
  constructor
  · intro same
    rw [← same]
    exact nil_notMem_parseCommandLine _
  · intro nonempty
    rw [parseCommandLine_commandLine, List.filter_eq_self]
    intro arg member
    have differs : arg ≠ [] := fun empty => nonempty (empty ▸ member)
    exact decide_eq_true differs

/-- `"SET" "k" ""` is read as `SET k`. -/
theorem empty_argument_lost :
    ¬ ∀ args : List Bytes, parseCommandLine (commandLine args) = args := by
  intro inverts
  have lost := inverts [text "SET", text "k", []]
  rw [parseCommandLine_commandLine] at lost
  exact absurd lost (by decide)

end ScuffedRedis.RedisClient
