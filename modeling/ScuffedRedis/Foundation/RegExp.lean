import ScuffedRedis.Foundation.Slices

/-!
# Regular expressions of ECMAScript

The constructor and `test`, without flags and with the grammar for browsers, for sources without a
question mark: there are no lookarounds, no lazy quantifiers and no names of groups. A matcher gives
every state in which it can succeed, in the order in which a backtracking engine comes to them. The
text has no characters beyond the basic plane.
-/
namespace Foundation.RegExp

/-! ### Characters -/

def isLineTerminator (c : Char) : Bool :=
  c.toNat ∈ [0x0A, 0x0D, 0x2028, 0x2029]

def isWordChar (c : Char) : Bool := c.isAlphanum || c = '_'

/-- White space or a line terminator. -/
def isSpace (c : Char) : Bool :=
  isLineTerminator c || c.toNat ∈ [0x09, 0x0B, 0x0C, 0x20, 0xA0, 0x1680, 0x202F, 0x205F, 0x3000,
    0xFEFF] || (0x2000 ≤ c.toNat && c.toNat ≤ 0x200A)

/-- What a class escape stands for. -/
def classEscape : Char → Option (Char → Bool)
  | 'd' => some Char.isDigit
  | 'D' => some fun c => !c.isDigit
  | 's' => some isSpace
  | 'S' => some fun c => !isSpace c
  | 'w' => some isWordChar
  | 'W' => some fun c => !isWordChar c
  | _ => none

/-! ### Patterns -/

inductive Node where
  | empty
  | characters (set : Char → Bool)
  | backReference (index : Nat)
  | lineStart
  | lineEnd
  | wordBoundary (negated : Bool)
  | sequence (first second : Node)
  | alternatives (first second : Node)
  | group (index : Nat) (body : Node)
  /-- The groups after `outside`, up to `inside`, are those of the body. -/
  | quantified (body : Node) (min : Nat) (max : Option Nat) (outside inside : Nat)

def Node.any : Node := .characters fun c => !isLineTerminator c

def Node.literal (code : Nat) : Node := .characters fun c => c.toNat = code

/-! ### Matching -/

structure State where
  endIndex : Nat
  captures : Nat → Option (List Char)

def State.start (index : Nat) : State := ⟨index, fun _ => none⟩

/-- Repetitions of an atom. Beyond the minimum, one that reads nothing fails. -/
def repeatMatcher (atom : State → List State) (reset : State → State) :
    Nat → Nat → Option Nat → State → List State
  | 0, _, _, _ => []
  | fuel + 1, min, max, x =>
    if max = some 0 then [x]
    else
      let more := (atom (reset x)).flatMap fun y =>
        if min = 0 ∧ y.endIndex = x.endIndex then []
        else repeatMatcher atom reset fuel (min - 1) (max.map (· - 1)) y
      if min = 0 then more ++ [x] else more

/-- Whether there is a word character at an index. -/
def isWordAt (input : List Char) (index : Nat) : Bool := (input[index]?).any isWordChar

namespace Node

/-- The states in which a pattern can succeed. -/
def matcher (input : List Char) : Node → State → List State
  | .empty, x => [x]
  | .characters set, x =>
    match input[x.endIndex]? with
    | some c => if set c then [{ x with endIndex := x.endIndex + 1 }] else []
    | none => []
  | .backReference index, x =>
    match x.captures index with
    | none => [x]
    | some text =>
      if text.isPrefixOf (input.drop x.endIndex) then
        [{ x with endIndex := x.endIndex + text.length }]
      else []
  | .lineStart, x => if x.endIndex = 0 then [x] else []
  | .lineEnd, x => if x.endIndex = input.length then [x] else []
  | .wordBoundary negated, x =>
    let before := x.endIndex ≠ 0 && isWordAt input (x.endIndex - 1)
    if (before != isWordAt input x.endIndex) != negated then [x] else []
  | .sequence first second, x => (matcher input first x).flatMap (matcher input second)
  | .alternatives first second, x => matcher input first x ++ matcher input second x
  | .group index body, x =>
    (matcher input body x).map fun y =>
      let text := (input.drop x.endIndex).take (y.endIndex - x.endIndex)
      { y with captures := Function.update y.captures index (some text) }
  | .quantified body min max outside inside, x =>
    let reset (x : State) : State :=
      { x with captures := fun i => if outside < i ∧ i ≤ inside then none else x.captures i }
    -- An iteration lowers the minimum or reads a character.
    repeatMatcher (matcher input body) reset (min + input.length + 1) min max x

/-- A match may start anywhere in the input. -/
def test (node : Node) (input : List Char) : Bool :=
  (List.range (input.length + 1)).any fun index => !(node.matcher input (.start index)).isEmpty

end Node

/-! ### What a matcher gives -/

namespace Node

variable {input : List Char} {x y : State}

theorem mem_characters {set : Char → Bool} :
    y ∈ (characters set).matcher input x ↔ ∃ c rest, input.drop x.endIndex = c :: rest ∧
      set c = true ∧ y = { x with endIndex := x.endIndex + 1 } := by
  cases text : input.drop x.endIndex with
  | nil =>
    have ended := List.drop_eq_nil_iff.mp text
    simp [matcher, List.getElem?_eq_none ended]
  | cons c rest =>
    have head := getElem?_of_drop text
    by_cases inside : set c = true <;> simp [matcher, head, inside]

theorem mem_sequence {first second : Node} :
    y ∈ (sequence first second).matcher input x ↔
      ∃ between ∈ first.matcher input x, y ∈ second.matcher input between := by
  simp [matcher]

/-- What can come of a sequence is what can come of its second part after its first. -/
theorem exists_sequence {first second : Node} {goal later : State → Prop}
    (step : ∀ between ∈ first.matcher input x,
      (∃ y ∈ second.matcher input between, goal y) ↔ later between) :
    (∃ y ∈ (sequence first second).matcher input x, goal y) ↔
      ∃ between ∈ first.matcher input x, later between := by
  constructor
  · rintro ⟨y, found, reached⟩
    obtain ⟨between, before, after⟩ := mem_sequence.mp found
    exact ⟨between, before, (step between before).mp ⟨y, after, reached⟩⟩
  · rintro ⟨between, before, reached⟩
    obtain ⟨y, after, reached⟩ := (step between before).mpr reached
    exact ⟨y, mem_sequence.mpr ⟨between, before, after⟩, reached⟩

@[simp] theorem mem_lineStart : y ∈ lineStart.matcher input x ↔ x.endIndex = 0 ∧ y = x := by
  by_cases front : x.endIndex = 0 <;> simp [matcher, front]

@[simp] theorem mem_lineEnd :
    y ∈ lineEnd.matcher input x ↔ x.endIndex = input.length ∧ y = x := by
  by_cases back : x.endIndex = input.length <;> simp [matcher, back]

theorem test_iff {node : Node} : node.test input = true ↔
    ∃ index ≤ input.length, ∃ y ∈ node.matcher input (.start index), True := by
  simp [test, List.eq_nil_iff_forall_not_mem]

theorem repeatMatcher_inside {atom : State → List State} {reset : State → State}
    (inner : ∀ x y, x.endIndex ≤ input.length → y ∈ atom (reset x) →
      y.endIndex ≤ input.length) {fuel min : Nat} {max : Option Nat} {x : State}
    (inside : x.endIndex ≤ input.length) (found : y ∈ repeatMatcher atom reset fuel min max x) :
    y.endIndex ≤ input.length := by
  induction fuel generalizing min max x y with
  | zero => simp [repeatMatcher] at found
  | succ fuel ih =>
    rw [repeatMatcher] at found
    have further : ∀ y ∈ (atom (reset x)).flatMap fun between =>
        if min = 0 ∧ between.endIndex = x.endIndex then []
        else repeatMatcher atom reset fuel (min - 1) (max.map (· - 1)) between,
        y.endIndex ≤ input.length := by
      intro y found
      obtain ⟨between, reached, found⟩ := List.mem_flatMap.mp found
      split at found
      · simp at found
      · exact ih (inner x between inside reached) found
    split at found
    · obtain rfl := List.mem_singleton.mp found
      exact inside
    · split at found
      · rcases List.mem_append.mp found with found | found
        · exact further y found
        · obtain rfl := List.mem_singleton.mp found
          exact inside
      · exact further y found

/-- A matcher stays inside its input. -/
theorem matcher_inside (node : Node) (inside : x.endIndex ≤ input.length)
    (found : y ∈ node.matcher input x) : y.endIndex ≤ input.length := by
  -- A matcher that stands between two others begins where the first one ends.
  induction node generalizing x y with
  | empty => simp_all [matcher]
  | characters set =>
    obtain ⟨c, rest, text, -, rfl⟩ := mem_characters.mp found
    have left := lt_of_drop text
    exact left
  | backReference index =>
    rw [matcher] at found
    split at found
    · simp_all
    next text _ =>
      split at found
      next front =>
        have length := (List.isPrefixOf_iff_prefix.mp front).length_le
        obtain rfl := List.mem_singleton.mp found
        rw [List.length_drop] at length
        show x.endIndex + text.length ≤ input.length
        omega
      · simp at found
  | lineStart => simp_all
  | lineEnd => simp_all
  | wordBoundary negated =>
    simp only [matcher] at found
    split at found <;> simp_all
  | sequence first second ihFirst ihSecond =>
    obtain ⟨between, reached, found⟩ := mem_sequence.mp found
    exact ihSecond (ihFirst inside reached) found
  | alternatives first second ihFirst ihSecond =>
    rcases List.mem_append.mp found with found | found
    · exact ihFirst inside found
    · exact ihSecond inside found
  | group index body ih =>
    obtain ⟨between, reached, rfl⟩ := List.mem_map.mp found
    have within : between.endIndex ≤ input.length := ih inside reached
    exact within
  | quantified body min max outside inner ih =>
    simp only [matcher] at found
    refine repeatMatcher_inside ?_ inside found
    intro x y within reached
    apply ih _ reached
    exact within

end Node

/-! ### Escapes -/

def hexValue (c : Char) : Option Nat :=
  if c.isDigit then some (c.toNat - '0'.toNat)
  else if 'a' ≤ c ∧ c ≤ 'f' then some (c.toNat - 'a'.toNat + 10)
  else if 'A' ≤ c ∧ c ≤ 'F' then some (c.toNat - 'A'.toNat + 10)
  else none

/-- The value of so many hexadecimal digits at the front. -/
def hexDigits (count : Nat) (text : List Char) : Option Nat :=
  if count ≤ text.length then
    ((text.take count).mapM hexValue).map (·.foldl (fun value digit => 16 * value + digit) 0)
  else none

def isOctalDigit (c : Char) : Bool := '0' ≤ c && c ≤ '7'

/-- The value of digits in a base. -/
def digitsValue (base : Nat) (digits : List Char) : Nat :=
  digits.foldl (fun value digit => base * value + (digit.toNat - '0'.toNat)) 0

/-- The digits of an octal escape: as many as keep it below 256. -/
def octalDigits (text : List Char) : List Char :=
  let digits := text.takeWhile isOctalDigit
  digits.take (if digits.head?.all (· ≤ '3') then 3 else 2)

/-- The code of a character escape, from the text after the backslash. In a class, `\c` takes
digits as well. -/
def characterEscape (inClass : Bool) : List Char → Option (Nat × List Char)
  | [] => none
  | 'f' :: rest => some (0x0C, rest)
  | 'n' :: rest => some (0x0A, rest)
  | 'r' :: rest => some (0x0D, rest)
  | 't' :: rest => some (0x09, rest)
  | 'v' :: rest => some (0x0B, rest)
  | 'c' :: rest =>
    match rest with
    | letter :: after =>
      if letter.isAlpha || (inClass && isWordChar letter) then some (letter.toNat % 32, after)
      -- Otherwise the backslash stands for itself.
      else some ('\\'.toNat, 'c' :: rest)
    | [] => some ('\\'.toNat, ['c'])
  | 'x' :: rest =>
    match hexDigits 2 rest with
    | some code => some (code, rest.drop 2)
    | none => some ('x'.toNat, rest)
  | 'u' :: rest =>
    match hexDigits 4 rest with
    | some code => some (code, rest.drop 4)
    | none => some ('u'.toNat, rest)
  | first :: rest =>
    if isOctalDigit first then
      let digits := octalDigits (first :: rest)
      some (digitsValue 8 digits, (first :: rest).drop digits.length)
    else some (first.toNat, rest)

/-! ### Classes -/

inductive ClassAtom where
  | single (code : Nat)
  | set (chars : Char → Bool)

namespace ClassAtom

def contains : ClassAtom → Char → Bool
  | .single code, c => c.toNat = code
  | .set chars, c => chars c

/-- The atoms around a hyphen. Beside a set the hyphen stands for itself. -/
def range : ClassAtom → ClassAtom → Option (Char → Bool)
  | .single low, .single high =>
    if low ≤ high then some fun c => low ≤ c.toNat && c.toNat ≤ high else none
  | low, high => some fun c => low.contains c || c = '-' || high.contains c

end ClassAtom

def classAtom : List Char → Option (ClassAtom × List Char)
  | [] => none
  | '\\' :: 'b' :: rest => some (.single 0x08, rest)
  | '\\' :: rest =>
    match rest.head?.bind classEscape with
    | some chars => some (.set chars, rest.tail)
    | none => (characterEscape true rest).map fun (code, after) => (.single code, after)
  | first :: rest => some (.single first.toNat, rest)

/-- The set that a class stands for, from the text after its bracket, and the text after it. -/
def classRanges : Nat → List Char → Option ((Char → Bool) × List Char)
  | 0, _ => none
  | _ + 1, ']' :: rest => some (fun _ => false, rest)
  | fuel + 1, text => do
    let (low, rest) ← classAtom text
    match rest with
    | '-' :: after =>
      if after.head? = some ']' then
        let (others, rest) ← classRanges fuel rest
        some (fun c => low.contains c || others c, rest)
      else
        let (high, rest) ← classAtom after
        let set ← ClassAtom.range low high
        let (others, rest) ← classRanges fuel rest
        some (fun c => set c || others c, rest)
    | _ =>
      let (others, rest) ← classRanges fuel rest
      some (fun c => low.contains c || others c, rest)

/-- A class, from the text after its bracket. -/
def characterClass : List Char → Option (Node × List Char)
  | '^' :: rest =>
    (classRanges (rest.length + 1) rest).map fun (set, after) =>
      (.characters fun c => !set c, after)
  | rest => (classRanges (rest.length + 1) rest).map fun (set, after) => (.characters set, after)

/-! ### Tokens -/

inductive Token where
  | atom (node : Node)
  | assertion (node : Node)
  | quantifier (min : Nat) (max : Option Nat)
  | opening
  | closing
  | bar

def Token.isOpening : Token → Bool
  | .opening => true
  | _ => false

/-- A character that is a token by itself. -/
def punctuator : Char → Option Token
  | '^' => some (.assertion .lineStart)
  | '$' => some (.assertion .lineEnd)
  | '.' => some (.atom .any)
  | '*' => some (.quantifier 0 none)
  | '+' => some (.quantifier 1 none)
  | '(' => some .opening
  | ')' => some .closing
  | '|' => some .bar
  | _ => none

/-- The bounds of a quantifier in braces, from the text after the brace, and the text after it. -/
def bracedQuantifier (text : List Char) : Option (Nat × Option Nat × List Char) :=
  let digits := text.takeWhile Char.isDigit
  if digits = [] then none
  else
    let min := digitsValue 10 digits
    match text.dropWhile Char.isDigit with
    | '\x7d' :: rest => some (min, some min, rest)
    | ',' :: rest =>
      let digits := rest.takeWhile Char.isDigit
      match rest.dropWhile Char.isDigit with
      | '\x7d' :: after =>
        some (min, if digits = [] then none else some (digitsValue 10 digits), after)
      | _ => none
    | _ => none

/-- A token from the text after a backslash. A number beyond the groups of the source is no
reference. -/
def atomEscape (groups : Nat) (text : List Char) : Option (Token × List Char) :=
  let number := digitsValue 10 (text.takeWhile Char.isDigit)
  match text with
  | [] => none
  | 'b' :: rest => some (.assertion (.wordBoundary false), rest)
  | 'B' :: rest => some (.assertion (.wordBoundary true), rest)
  | first :: rest =>
    match classEscape first with
    | some set => some (.atom (.characters set), rest)
    | none =>
      if first.isDigit ∧ first ≠ '0' ∧ number ≤ groups then
        some (.atom (.backReference number), text.dropWhile Char.isDigit)
      else (characterEscape false text).map fun (code, after) => (.atom (.literal code), after)

/-- The first token of a text and the text after it. -/
def token (groups : Nat) : List Char → Option (Token × List Char)
  | [] => none
  | first :: rest =>
    match punctuator first with
    | some token => some (token, rest)
    | none =>
      if first = '[' then (characterClass rest).map fun (node, after) => (.atom node, after)
      else if first = '\\' then atomEscape groups rest
      else if first = '\x7b' then
        match bracedQuantifier rest with
        | some (min, max, after) => some (.quantifier min max, after)
        | none => some (.atom (.literal first.toNat), rest)
      else some (.atom (.literal first.toNat), rest)

def tokens (groups : Nat) : Nat → List Char → Option (List Token)
  | _, [] => some []
  | 0, _ :: _ => none
  | fuel + 1, text => do
    let (first, rest) ← token groups text
    let others ← tokens groups fuel rest
    some (first :: others)

section Tokens

variable {groups fuel : Nat} {first : Char} {rest text : List Char}

theorem token_punctuator {listed : Token} (single : punctuator first = some listed) :
    token groups (first :: rest) = some (listed, rest) := by
  simp [token, single]

/-- Any other character stands for itself, a brace as well where it opens no quantifier. -/
theorem token_literal (single : punctuator first = none) (class' : first ≠ '[')
    (escape : first ≠ '\\') (brace : first = '\x7b' → bracedQuantifier rest = none) :
    token groups (first :: rest) = some (.atom (.literal first.toNat), rest) := by
  by_cases braced : first = '\x7b'
  · subst braced
    simp [token, single, brace]
  · simp [token, single, class', escape, braced]

theorem tokens_cons {listed : Token} {others : List Token}
    (front : token groups (first :: text) = some (listed, rest))
    (back : tokens groups fuel rest = some others) :
    tokens groups (fuel + 1) (first :: text) = some (listed :: others) := by
  simp [tokens, front, back]

/-- The braces of a quantifier hold digits, and digits or nothing after a comma. -/
theorem bracedQuantifier_ne_none : bracedQuantifier text ≠ none ↔
    text.takeWhile Char.isDigit ≠ [] ∧
      ((text.dropWhile Char.isDigit).head? = some '\x7d' ∨
        ∃ rest, text.dropWhile Char.isDigit = ',' :: rest ∧
          (rest.dropWhile Char.isDigit).head? = some '\x7d') := by
  rw [bracedQuantifier]
  by_cases bare : text.takeWhile Char.isDigit = []
  · simp [bare]
  · simp only [bare, if_false, not_false_eq_true, true_and, ne_eq]
    split
    next after closed => simp [closed]
    next rest comma =>
      simp only [comma, List.cons.injEq, true_and, exists_eq_left']
      split
      next after closed => simp [closed]
      next notClosed =>
        generalize rest.dropWhile Char.isDigit = tail at notClosed ⊢
        cases tail <;> simp_all
    next notClosed notComma =>
      generalize text.dropWhile Char.isDigit = tail at notClosed notComma ⊢
      cases tail <;> simp_all

end Tokens

/-! ### The constructor -/

/-- A disjunction that is being read: the alternatives before the last bar, the terms after it, and
the last atom with the number of groups before it, to which a quantifier may still apply. -/
structure Frame where
  before : Option Node
  terms : Node
  last : Option (Node × Nat)

namespace Frame

def start : Frame := ⟨none, .empty, none⟩

def alternative (frame : Frame) : Node :=
  match frame.last with
  | some (atom, _) => .sequence frame.terms atom
  | none => frame.terms

def disjunction (frame : Frame) : Node :=
  match frame.before with
  | some before => .alternatives before frame.alternative
  | none => frame.alternative

def push (frame : Frame) (atom : Node) (groups : Nat) : Frame :=
  { frame with terms := frame.alternative, last := some (atom, groups) }

end Frame

/-- A source that is being read: the disjunction, those around it with the numbers of their groups,
and the number of groups so far. -/
structure Reading where
  frame : Frame
  around : List (Frame × Nat)
  groups : Nat

namespace Reading

def start : Reading := ⟨.start, [], 0⟩

/-- Nothing where the token is a syntax error. -/
def accept (reading : Reading) : Token → Option Reading
  | .atom node => some { reading with frame := reading.frame.push node reading.groups }
  | .assertion node =>
    let terms := .sequence reading.frame.alternative node
    some { reading with frame := { reading.frame with terms := terms, last := none } }
  | .quantifier min max =>
    match reading.frame.last with
    | none => none
    | some (atom, groups) =>
      if max.any (· < min) then none
      else
        let terms := .sequence reading.frame.terms (.quantified atom min max groups reading.groups)
        some { reading with frame := { reading.frame with terms := terms, last := none } }
  | .bar =>
    some { reading with frame := ⟨some reading.frame.disjunction, .empty, none⟩ }
  | .opening =>
    some ⟨.start, (reading.frame, reading.groups + 1) :: reading.around, reading.groups + 1⟩
  | .closing =>
    match reading.around with
    | [] => none
    | (frame, index) :: around =>
      let group := .group index reading.frame.disjunction
      some ⟨frame.push group (index - 1), around, reading.groups⟩

end Reading

/-- The pattern of a source, or nothing where the constructor throws a `SyntaxError`. -/
def compile (source : List Char) : Option Node := do
  let outline ← tokens 0 source.length source
  let listed ← tokens (outline.countP Token.isOpening) source.length source
  let reading ← listed.foldlM Reading.accept Reading.start
  if reading.around = [] then some reading.frame.disjunction else none

end Foundation.RegExp
