import ScuffedRedis.Client.MockCache
import ScuffedRedis.Data.GlobMatching
import ScuffedRedis.Foundation.RegExpRenaming
import ScuffedRedis.Foundation.Utf8

/-!
# KEYS of the mock backend

`redisKeys` makes a regular expression of a pattern, with `.*` for a star and `.` for a question
mark. Every other character of the pattern stands in the regular expression as it is, and has there
the meaning that it has in a regular expression.
-/
namespace ScuffedRedis
namespace MockCache

open Foundation

/-- `replace` with a global regular expression for one character. -/
def replaceAll (char : Char) (replacement text : List Char) : List Char :=
  text.flatMap fun c => if c = char then replacement else [c]

/-- The source between the anchors. -/
def regexBody (pattern : List Char) : List Char :=
  replaceAll '?' ['.'] (replaceAll '*' ['.', '*'] pattern)

def regexSource (pattern : List Char) : List Char := '^' :: (regexBody pattern ++ ['$'])

/-- The filter for a pattern, or nothing where `new RegExp` throws. -/
def keysFilter (pattern : String) : Option (String → Bool) :=
  if pattern = "*" then some fun _ => true
  else (RegExp.compile (regexSource pattern.toList)).map fun regex key => regex.test key.toList

/-- `redisKeys` for any pattern. -/
def redisKeysFor (cache : MockCache) (pattern : String) : Option (List String) :=
  (keysFilter pattern).map cache.keys.filter

/-- The mock backend lists the key, if it has it. -/
def Accepts (pattern key : String) : Prop :=
  ∃ accepts, keysFilter pattern = some accepts ∧ accepts key = true

/-- The characters of the pattern mean nothing in a regular expression, apart from the stars, the
question marks and the dots. -/
def Simple : List Char → Prop
  | [] => True
  | c :: rest => c ∉ ['^', '$', '+', '(', ')', '|', '[', '\\'] ∧
      (c = '\x7b' → RegExp.bracedQuantifier rest = none) ∧ Simple rest

/-- The pattern with a question mark for each dot. -/
def undot (pattern : List Char) : List Char := pattern.map fun c => if c = '.' then '?' else c

/-- The meaning of a pattern, over characters. -/
abbrev Matches (pattern key : List Char) : Prop := Wildcards.Matches '*' '?' pattern key

/-- The keys listed are those of the cache that the pattern accepts. -/
theorem mem_redisKeysFor {cache : MockCache} {pattern key : String} {listed : List String}
    (made : redisKeysFor cache pattern = some listed) :
    key ∈ listed ↔ key ∈ cache.keys ∧ Accepts pattern key := by
  obtain ⟨accepts, known, rfl⟩ := Option.map_eq_some_iff.mp made
  simp [Accepts, known, List.mem_filter]

/-! ### The source -/

section Source

variable {c : Char} {rest pattern : List Char}

@[simp] theorem regexBody_nil : regexBody [] = [] := by
  simp [regexBody, replaceAll]

@[simp] theorem regexBody_star : regexBody ('*' :: rest) = '.' :: '*' :: regexBody rest := by
  simp [regexBody, replaceAll]

@[simp] theorem regexBody_question : regexBody ('?' :: rest) = '.' :: regexBody rest := by
  simp [regexBody, replaceAll]

theorem regexBody_cons (plain : c ≠ '*') (symbol : c ≠ '?') :
    regexBody (c :: rest) = c :: regexBody rest := by
  simp [regexBody, replaceAll, plain, symbol]

theorem takeWhile_regexBody (text : List Char) :
    (regexBody text ++ ['$']).takeWhile Char.isDigit = text.takeWhile Char.isDigit := by
  induction text with
  | nil => decide
  | cons c rest ih =>
    by_cases special : c = '*'
    · subst special
      simp
    by_cases symbol : c = '?'
    · subst symbol
      simp
    · simp [regexBody_cons special symbol, List.takeWhile_cons, ih]

theorem dropWhile_regexBody (text : List Char) :
    (regexBody text ++ ['$']).dropWhile Char.isDigit =
      regexBody (text.dropWhile Char.isDigit) ++ ['$'] := by
  induction text with
  | nil => decide
  | cons c rest ih =>
    by_cases special : c = '*'
    · subst special
      simp
    by_cases symbol : c = '?'
    · subst symbol
      simp
    · by_cases digit : c.isDigit = true
      · simp [regexBody_cons special symbol, digit, ih]
      · simp [regexBody_cons special symbol, digit]

theorem regexBody_front {front : Char} {after text : List Char}
    (apart : front ≠ '.' ∧ front ≠ '$') (here : regexBody text ++ ['$'] = front :: after) :
    ∃ rest, text = front :: rest ∧ after = regexBody rest ++ ['$'] := by
  cases text with
  | nil =>
    simp only [regexBody_nil, List.nil_append, List.cons.injEq] at here
    exact absurd here.1.symm apart.2
  | cons c rest =>
    by_cases special : c = '*'
    · subst special
      simp only [regexBody_star, List.cons_append, List.cons.injEq] at here
      exact absurd here.1.symm apart.1
    by_cases symbol : c = '?'
    · subst symbol
      simp only [regexBody_question, List.cons_append, List.cons.injEq] at here
      exact absurd here.1.symm apart.1
    · rw [regexBody_cons special symbol, List.cons_append] at here
      obtain ⟨rfl, rfl⟩ := List.cons.inj here
      exact ⟨rest, rfl, rfl⟩

/-- A brace that opens no quantifier in the pattern opens none in the source. -/
theorem bracedQuantifier_regexBody {text : List Char}
    (open' : RegExp.bracedQuantifier text = none) :
    RegExp.bracedQuantifier (regexBody text ++ ['$']) = none := by
  by_contra braced
  obtain ⟨digits, ended⟩ := RegExp.bracedQuantifier_ne_none.mp braced
  rw [takeWhile_regexBody] at digits
  rw [dropWhile_regexBody] at ended
  -- The closing brace is not of the translation, so it stands in the pattern.
  have closes : ∀ {text : List Char}, (regexBody text ++ ['$']).head? = some '\x7d' →
      text.head? = some '\x7d' := by
    intro text closed
    obtain ⟨after, here⟩ := List.head?_eq_some_iff.mp closed
    obtain ⟨rest, rfl, -⟩ := regexBody_front (by decide) here
    rfl
  apply RegExp.bracedQuantifier_ne_none.mpr _ open'
  refine ⟨digits, ?_⟩
  rcases ended with closed | ⟨after, comma, closed⟩
  · exact .inl (closes closed)
  · obtain ⟨rest, here, rfl⟩ := regexBody_front (by decide) comma
    rw [dropWhile_regexBody] at closed
    exact .inr ⟨rest, here, closes closed⟩

end Source

/-! ### The regular expression of a simple pattern -/

section Regex

open RegExp

variable {pattern : List Char}

/-- The tokens between the anchors. -/
def outline : List Char → List Token
  | [] => []
  | c :: rest =>
    if c = '*' then .atom .any :: .quantifier 0 none :: outline rest
    else if c = '?' ∨ c = '.' then .atom .any :: outline rest
    else .atom (.literal c.toNat) :: outline rest

theorem tokens_regexBody (simple : Simple pattern) (groups : Nat) {fuel : Nat}
    (enough : (regexBody pattern ++ ['$']).length ≤ fuel) :
    tokens groups fuel (regexBody pattern ++ ['$']) =
      some (outline pattern ++ [.assertion .lineEnd]) := by
  induction pattern generalizing fuel with
  | nil =>
    obtain ⟨rest, rfl⟩ : ∃ rest, fuel = rest + 1 := ⟨fuel - 1, by simp at enough; omega⟩
    exact tokens_cons (token_punctuator rfl) (by simp [tokens])
  | cons c rest ih =>
    obtain ⟨plain, brace, simple⟩ := simple
    by_cases special : c = '*'
    · subst special
      simp only [regexBody_star, List.cons_append, List.length_cons] at enough
      obtain ⟨less, rfl⟩ : ∃ less, fuel = less + 1 + 1 := ⟨fuel - 2, by omega⟩
      simp only [regexBody_star, List.cons_append, outline, if_true]
      exact tokens_cons (token_punctuator rfl)
        (tokens_cons (token_punctuator rfl) (ih simple (by omega)))
    by_cases symbol : c = '?'
    · subst symbol
      simp only [regexBody_question, List.cons_append, List.length_cons] at enough
      obtain ⟨less, rfl⟩ : ∃ less, fuel = less + 1 := ⟨fuel - 1, by omega⟩
      simp only [regexBody_question, List.cons_append, outline, special, if_false, true_or, if_true]
      exact tokens_cons (token_punctuator rfl) (ih simple (by omega))
    simp only [regexBody_cons special symbol, List.cons_append, List.length_cons] at enough ⊢
    obtain ⟨less, rfl⟩ : ∃ less, fuel = less + 1 := ⟨fuel - 1, by omega⟩
    by_cases dot : c = '.'
    · subst dot
      simp only [outline, special, if_false, or_true, if_true, List.cons_append]
      exact tokens_cons (token_punctuator rfl) (ih simple (by omega))
    · simp only [outline, special, symbol, dot, or_self, if_false, List.cons_append]
      -- Any other character is a literal, a brace because it opens no quantifier.
      have single : punctuator c = none := by
        unfold punctuator
        split <;> simp_all
      refine tokens_cons (token_literal single ?_ ?_ ?_) (ih simple (by omega))
      · rintro rfl
        simp at plain
      · rintro rfl
        simp at plain
      · intro braced
        exact bracedQuantifier_regexBody (brace braced)

variable {input : List Char} (plain : ∀ c ∈ input, isLineTerminator c = false)

theorem matches_literal {c : Char} (special : c ≠ '*') (symbol : c ≠ '?') (x : State) :
    (∃ y ∈ (Node.literal c.toNat).matcher input x, Matches pattern (input.drop y.endIndex)) ↔
      Matches (c :: pattern) (input.drop x.endIndex) := by
  cases text : input.drop x.endIndex with
  | nil => simp [Node.literal, Node.mem_characters, text, Wildcards.not_matches_nil special]
  | cons first rest =>
    have later := drop_succ text
    simp [Node.literal, Node.mem_characters, text, Wildcards.matches_cons special, symbol, later,
      Char.toNat_inj, eq_comm]

include plain

theorem matches_any (x : State) :
    (∃ y ∈ Node.any.matcher input x, Matches pattern (input.drop y.endIndex)) ↔
      Matches ('?' :: pattern) (input.drop x.endIndex) := by
  cases text : input.drop x.endIndex with
  | nil => simp [Node.any, Node.mem_characters, text, Wildcards.not_matches_nil]
  | cons first rest =>
    have later := drop_succ text
    have member : first ∈ input := List.mem_of_mem_drop (text ▸ List.mem_cons_self)
    simp [Node.any, Node.mem_characters, text, Wildcards.matches_cons, later, plain first member]

theorem matches_repeated {reset : State → State} (kept : ∀ x, (reset x).endIndex = x.endIndex)
    {fuel : Nat} (x : State) (enough : (input.drop x.endIndex).length < fuel) :
    (∃ y ∈ repeatMatcher (Node.any.matcher input) reset fuel 0 none x,
      Matches pattern (input.drop y.endIndex)) ↔
      Matches ('*' :: pattern) (input.drop x.endIndex) := by
  -- Every iteration reads a character, and the rest of the input is the fuel.
  induction fuel generalizing x with
  | zero => omega
  | succ fuel ih =>
    have here : (reset x).endIndex = x.endIndex := kept x
    cases text : input.drop x.endIndex with
    | nil =>
      have ended := List.drop_eq_nil_iff.mp text
      have nothing : Node.any.matcher input (reset x) = [] := by
        simp [Node.any, Node.matcher, here, List.getElem?_eq_none ended]
      simp [repeatMatcher, nothing, text, Wildcards.matches_star_nil]
    | cons first rest =>
      have later := drop_succ text
      have member : first ∈ input := List.mem_of_mem_drop (text ▸ List.mem_cons_self)
      have one : Node.any.matcher input (reset x) =
          [{ reset x with endIndex := x.endIndex + 1 }] := by
        have head := getElem?_of_drop text
        simp [Node.any, Node.matcher, here, head, plain first member]
      have next := ih { reset x with endIndex := x.endIndex + 1 } (by
        rw [text, List.length_cons] at enough
        simp only [later]
        omega)
      simp only [later] at next
      have skip : Matches ('*' :: pattern) (first :: rest) ↔
          Matches pattern (first :: rest) ∨ Matches ('*' :: pattern) rest :=
        Wildcards.matches_star_iff
      rw [skip, ← next, ← text]
      simp [repeatMatcher, one, or_and_right, exists_or, or_comm]

theorem matches_quantified (outside inside : Nat) (x : State) :
    (∃ y ∈ (RegExp.Node.quantified .any 0 none outside inside).matcher input x,
      Matches pattern (input.drop y.endIndex)) ↔
      Matches ('*' :: pattern) (input.drop x.endIndex) := by
  simp only [Node.matcher]
  apply matches_repeated plain
  · simp
  · rw [List.length_drop]
    omega

variable (pattern) in
/-- What is read of a disjunction without groups and bars is followed by the rest of the pattern. -/
theorem accept_outline (reading : Reading) (flat : reading.around = [])
    (single : reading.frame.before = none) :
    ∃ final, (outline pattern ++ [Token.assertion .lineEnd]).foldlM Reading.accept reading =
        some final ∧ final.around = [] ∧ ∀ x : State, x.endIndex ≤ input.length →
        ((∃ y ∈ final.frame.disjunction.matcher input x, True) ↔
          ∃ y ∈ reading.frame.alternative.matcher input x,
            Matches (undot pattern) (input.drop y.endIndex)) := by
  induction pattern generalizing reading with
  | nil =>
    -- The anchor at the end takes the end of the input alone.
    refine ⟨_, rfl, flat, fun x inside => ?_⟩
    simp only [Frame.disjunction, single, Frame.alternative]
    apply Node.exists_sequence
    intro between found
    have within := Node.matcher_inside _ inside found
    simp [undot, Nat.le_antisymm_iff, within]
  | cons c rest ih =>
    by_cases special : c = '*'
    · subst special
      let groups := reading.groups
      let repeated : RegExp.Node := .quantified .any 0 none groups groups
      let terms : RegExp.Node := .sequence reading.frame.alternative repeated
      obtain ⟨final, run, around, found⟩ :=
        ih { reading with frame := { reading.frame with terms := terms, last := none } } flat single
      refine ⟨final, run, around, fun x inside => ?_⟩
      rw [found x inside]
      apply Node.exists_sequence
      intro between _
      exact matches_quantified plain groups groups between
    by_cases wild : c = '?' ∨ c = '.'
    · obtain ⟨final, run, around, found⟩ :=
        ih { reading with frame := reading.frame.push .any reading.groups } flat single
      refine ⟨final, ?_, around, fun x inside => ?_⟩
      · simpa [outline, special, wild, Reading.accept] using run
      · have symbol : undot (c :: rest) = '?' :: undot rest := by
          rcases wild with rfl | rfl <;> simp [undot]
        rw [found x inside, symbol]
        apply Node.exists_sequence
        intro between _
        exact matches_any plain between
    · obtain ⟨final, run, around, found⟩ :=
        ih { reading with frame := reading.frame.push (.literal c.toNat) reading.groups } flat
          single
      rw [not_or] at wild
      refine ⟨final, ?_, around, fun x inside => ?_⟩
      · simpa [outline, special, wild, Reading.accept] using run
      · have symbol : undot (c :: rest) = c :: undot rest := by simp [undot, wild.2]
        rw [found x inside, symbol]
        apply Node.exists_sequence
        intro between _
        exact matches_literal special wild.1 between

/-- The regular expression of a simple pattern takes what the pattern means with a question mark for
each dot. -/
theorem regexSource_matches (simple : Simple pattern) :
    ∃ regex, compile (regexSource pattern) = some regex ∧
      (regex.test input = true ↔ Matches (undot pattern) input) := by
  have listed (groups : Nat) : tokens groups (regexSource pattern).length (regexSource pattern) =
      some (.assertion .lineStart :: (outline pattern ++ [.assertion .lineEnd])) :=
    tokens_cons (token_punctuator rfl) (tokens_regexBody simple groups (Nat.le_refl _))
  let front : Frame := ⟨none, .sequence .empty .lineStart, none⟩
  obtain ⟨final, run, around, found⟩ := accept_outline pattern plain ⟨front, [], 0⟩ rfl rfl
  refine ⟨final.frame.disjunction, ?_, ?_⟩
  · have whole : (Token.assertion .lineStart :: (outline pattern ++ [.assertion .lineEnd])).foldlM
        Reading.accept Reading.start = some final := run
    simp [compile, listed, whole, around]
  · -- The anchor at the front leaves the match that starts at the front.
    have anchored (index : Nat) (inside : index ≤ input.length) :
        (∃ y ∈ final.frame.disjunction.matcher input (.start index), True) ↔
          index = 0 ∧ Matches (undot pattern) (input.drop index) := by
      rw [found (.start index) inside]
      by_cases first : index = 0 <;>
        simp [front, Frame.alternative, Node.matcher, State.start, first]
    rw [Node.test_iff]
    constructor
    · rintro ⟨index, inside, matched⟩
      obtain ⟨rfl, matched⟩ := (anchored index inside).mp matched
      exact matched
    · intro matched
      exact ⟨0, Nat.zero_le _, (anchored 0 (Nat.zero_le _)).mpr ⟨rfl, matched⟩⟩

end Regex

/-! ### Both backends -/

section Backends

variable {pattern key : String}

/-- A text of one line, in ASCII. -/
def AsciiLine (text : String) : Prop := ∀ c ∈ text.toList, c.toNat < 128 ∧ c ≠ '\n' ∧ c ≠ '\r'

theorem AsciiLine.plain (line : AsciiLine key) :
    ∀ c ∈ key.toList, RegExp.isLineTerminator c = false := by
  intro c member
  obtain ⟨small, feed, carriage⟩ := line c member
  have notFeed : c.toNat ≠ 0x0A := fun same => feed (Char.toNat_inj.mp same)
  have notReturn : c.toNat ≠ 0x0D := fun same => carriage (Char.toNat_inj.mp same)
  simp [RegExp.isLineTerminator, notFeed, notReturn]
  omega

theorem accepts_iff (line : AsciiLine key) (simple : Simple pattern.toList) :
    Accepts pattern key ↔ Matches (undot pattern.toList) key.toList := by
  by_cases lone : pattern = "*"
  · have whole : Matches ['*'] key.toList :=
      Wildcards.matches_star.mpr ⟨key.toList, [], by simp⟩
    subst lone
    simpa [Accepts, keysFilter, undot] using whole
  · obtain ⟨regex, made, matched⟩ := regexSource_matches line.plain simple
    simp [Accepts, keysFilter, lone, made, matched]

/-- What the pattern means, it means with a question mark for each dot. -/
theorem matches_undot {pattern key : List Char} (matched : Matches pattern key) :
    Matches (undot pattern) key := by
  induction pattern generalizing key with
  | nil => exact matched
  | cons c rest ih =>
    by_cases special : c = '*'
    · subst special
      obtain ⟨skipped, after, rfl, later⟩ := Wildcards.matches_star.mp matched
      exact Wildcards.matches_star.mpr ⟨skipped, after, rfl, ih later⟩
    · cases key with
      | nil => exact absurd matched (Wildcards.not_matches_nil special)
      | cons first key =>
        obtain ⟨reads, later⟩ := (Wildcards.matches_cons special).mp matched
        by_cases dot : c = '.'
        · subst dot
          exact (Wildcards.matches_cons (by decide)).mpr ⟨.inl rfl, ih later⟩
        · have same : undot (c :: rest) = c :: undot rest := by simp [undot, dot]
          rw [same]
          exact (Wildcards.matches_cons special).mpr ⟨reads, ih later⟩

theorem toNat_byte {c : Char} (within : c.toNat < 128) :
    (UInt8.ofNat c.toNat).toNat = c.toNat :=
  UInt8.toNat_ofNat_of_lt' (Nat.lt_trans within (by decide))

/-- ASCII characters are told apart by their bytes. -/
theorem byte_injOn :
    Set.InjOn (fun c : Char => UInt8.ofNat c.toNat) {c | c.toNat < 128} := by
  intro first small second small' same
  have codes : (UInt8.ofNat first.toNat).toNat = (UInt8.ofNat second.toNat).toNat :=
    congrArg UInt8.toNat same
  rw [toNat_byte small, toNat_byte small'] at codes
  exact Char.toNat_inj.mp codes

section Beyond

variable (line : AsciiLine key) {c : Char} (listed : c ∈ pattern.toList) (beyond : 128 ≤ c.toNat)

include line listed beyond

/-- A character that is not ASCII is in no ASCII key. -/
theorem not_matches_of_beyond : ¬ Matches pattern.toList key.toList := by
  intro matched
  rcases Wildcards.mem_of_matches matched c listed with rfl | rfl | found
  · exact absurd beyond (by decide)
  · exact absurd beyond (by decide)
  · have small := (line c found).1
    omega

/-- And its first byte is no byte of one. -/
theorem not_matches_encode_of_beyond :
    ¬ Glob.Matches (Utf8.encode pattern) (Utf8.encode key) := by
  intro matched
  obtain ⟨first, member, large⟩ := Utf8.encodeChar_beyond beyond
  have inside : first ∈ Utf8.encode pattern := List.mem_flatMap.mpr ⟨c, listed, member⟩
  rcases Wildcards.mem_of_matches matched first inside with rfl | rfl | found
  · exact absurd large (by decide)
  · exact absurd large (by decide)
  · rw [Utf8.encode, Utf8.encodeChars_ascii fun c member => (line c member).1] at found
    obtain ⟨other, known, rfl⟩ := List.mem_map.mp found
    have small := (line other known).1
    rw [toNat_byte small] at large
    omega

end Beyond

variable (pattern) in
/-- The bytes of a pattern match those of an ASCII key as the pattern matches the key. -/
theorem matches_encode (line : AsciiLine key) :
    Glob.Matches (Utf8.encode pattern) (Utf8.encode key) ↔ Matches pattern.toList key.toList := by
  by_cases ascii : ∀ c ∈ pattern.toList, c.toNat < 128
  · have special : '*'.toNat < 128 ∧ '?'.toNat < 128 := by decide
    have spelt : ∀ c ∈ key.toList, c.toNat < 128 := fun c member => (line c member).1
    rw [Utf8.encode, Utf8.encode, Utf8.encodeChars_ascii ascii, Utf8.encodeChars_ascii spelt]
    exact Wildcards.matches_map byte_injOn special.1 special.2 _ _ ascii spelt
  · simp only [not_forall, not_lt] at ascii
    obtain ⟨c, listed, beyond⟩ := ascii
    exact iff_of_false (not_matches_encode_of_beyond line listed beyond)
      (not_matches_of_beyond line listed beyond)

theorem encode_eq_star : Utf8.encode pattern = [Glob.star] ↔ pattern = "*" := by
  have star : Utf8.encode "*" = [Glob.star] := by decide
  constructor
  · intro same
    have decoded := congrArg Utf8.decode (same.trans star.symm)
    rwa [Utf8.decode_encode, Utf8.decode_encode] at decoded
  · rintro rfl
    exact star

/-- The two backends select the same keys for the pattern. -/
def Agrees (pattern : String) : Prop :=
  ∀ key, AsciiLine key →
    (Accepts pattern key ↔ matchesPattern (Utf8.encode key) (Utf8.encode pattern) = true)

/-! ### Keys that tell the backends apart -/

theorem mem_replaceAll {c char : Char} {replacement text : List Char}
    (member : c ∈ replaceAll char replacement text) : c ∈ replacement ∨ c ∈ text := by
  obtain ⟨first, listed, member⟩ := List.mem_flatMap.mp member
  split at member
  · exact .inl member
  · rw [List.mem_singleton] at member
    exact .inr (member ▸ listed)

/-- Besides those of the pattern, the source has these characters. -/
theorem mem_regexSource {c : Char} {pattern : List Char} (member : c ∈ regexSource pattern) :
    c ∈ ['^', '$', '.', '*'] ∨ c ∈ pattern := by
  rw [regexSource, List.mem_cons, List.mem_append, List.mem_singleton] at member
  rcases member with front | inside | back
  · simp [front]
  · rcases mem_replaceAll inside with dot | inside
    · simp [List.mem_singleton.mp dot]
    · refine (mem_replaceAll inside).imp (fun star => ?_) id
      simpa using Or.inr (Or.inr (by simpa using star))
  · simp [back]

/-- A pattern is one of its own keys for `matches_pattern`. -/
theorem Agrees.accepts_self (agrees : Agrees pattern) (line : AsciiLine pattern) :
    Accepts pattern pattern :=
  (agrees pattern line).mpr (Glob.matchesPattern_self _)

theorem star_mem_encode (line : AsciiLine key) :
    Glob.star ∈ Utf8.encode key ↔ '*' ∈ key.toList := by
  rw [Utf8.encode, Utf8.encodeChars_ascii fun c member => (line c member).1, List.mem_map]
  constructor
  · rintro ⟨c, member, same⟩
    obtain rfl : c = '*' := byte_injOn (line c member).1 (by decide) same
    exact member
  · exact fun member => ⟨'*', member, rfl⟩

/-- Bytes of which each is the byte of a character of some line are those of a key. -/
theorem exists_key {bytes : List UInt8}
    (spelt : ∀ byte ∈ bytes, ∃ c : Char, (c.toNat < 128 ∧ c ≠ '\n' ∧ c ≠ '\r') ∧
      UInt8.ofNat c.toNat = byte) : ∃ key, AsciiLine key ∧ Utf8.encode key = bytes := by
  have chars : ∃ chars : List Char, (∀ c ∈ chars, c.toNat < 128 ∧ c ≠ '\n' ∧ c ≠ '\r') ∧
      chars.map (fun c => UInt8.ofNat c.toNat) = bytes := by
    induction bytes with
    | nil => exact ⟨[], List.forall_mem_nil _, rfl⟩
    | cons byte bytes ih =>
      rw [List.forall_mem_cons] at spelt
      obtain ⟨c, line, rfl⟩ := spelt.1
      obtain ⟨chars, lines, rfl⟩ := ih spelt.2
      exact ⟨c :: chars, List.forall_mem_cons.mpr ⟨line, lines⟩, rfl⟩
  obtain ⟨chars, lines, rfl⟩ := chars
  refine ⟨String.ofList chars, by rwa [AsciiLine, String.toList_ofList], ?_⟩
  rw [Utf8.encode, String.toList_ofList, Utf8.encodeChars_ascii fun c member => (lines c member).1]

/-- The characters other than the star that are tokens of a regular expression by themselves. -/
def marks : List Char := ['.', '^', '$', '+', '(', ')', '|']

theorem punctuator_mark {mark : Char} (special : mark ∈ marks) : RegExp.punctuator mark ≠ none := by
  fin_cases special <;> exact Option.some_ne_none _

/-- A mark stands for itself only in a class or behind a backslash. Without these a regular
expression that takes a key takes it with any character for the mark, and `matches_pattern` does
not. -/
theorem not_agrees_of_mark (line : AsciiLine pattern) (class' : '[' ∉ pattern.toList)
    (escape : '\\' ∉ pattern.toList) {mark : Char} (special : mark ∈ marks)
    (member : mark ∈ pattern.toList) : ¬ Agrees pattern := by
  intro agrees
  obtain ⟨accepts, made, accepted⟩ := agrees.accepts_self line
  have more : pattern ≠ "*" := by
    rintro rfl
    rw [show "*".toList = ['*'] by decide, List.mem_singleton] at member
    exact absurd special (member ▸ by decide)
  rw [keysFilter, if_neg more] at made
  obtain ⟨regex, compiled, rfl⟩ := Option.map_eq_some_iff.mp made
  -- The mark is renamed to a letter.
  let rename (c : Char) : Char := if c = mark then 'x' else c
  have literals (c : Char) (plain : RegExp.punctuator c = none) : rename c = c := by
    refine if_neg ?_
    rintro rfl
    exact punctuator_mark special plain
  have lines (c : Char) (single : RegExp.isLineTerminator c = false) :
      RegExp.isLineTerminator (rename c) = false := by
    by_cases same : c = mark
    · simp [rename, same, RegExp.isLineTerminator]
    · simpa [rename, same] using single
  have keeps : regex.Keeps rename := by
    refine RegExp.compile_keeps (fun groups listed read => ?_) compiled
    refine RegExp.tokens_keep literals lines (fun inside => ?_) (fun inside => ?_) read
    · exact (mem_regexSource inside).elim (by decide) class'
    · exact (mem_regexSource inside).elim (by decide) escape
  have found := RegExp.Node.test_map keeps accepted
  let key := String.ofList (pattern.toList.map rename)
  have chars : key.toList = pattern.toList.map rename := String.toList_ofList
  have keyLine : AsciiLine key := by
    intro c inside
    rw [chars] at inside
    obtain ⟨other, listed, rfl⟩ := List.mem_map.mp inside
    by_cases same : other = mark
    · simp [rename, same]
    · simpa [rename, same] using line other listed
  have listed : Accepts pattern key := by
    refine ⟨_, by rw [keysFilter, if_neg more, compiled]; rfl, ?_⟩
    change regex.test key.toList = true
    rw [chars]
    exact found
  -- But a key has the marks of its pattern.
  have matched := (matches_encode pattern keyLine).mp
    (Glob.matches_of_matchesPattern ((agrees key keyLine).mp listed))
  rcases Wildcards.mem_of_matches matched mark member with rfl | rfl | inside
  · exact absurd special (by decide)
  · exact absurd special (by decide)
  · rw [chars] at inside
    obtain ⟨other, -, renamed⟩ := List.mem_map.mp inside
    by_cases same : other = mark
    · simp only [rename, same, if_true] at renamed
      exact absurd special (renamed ▸ by decide)
    · simp only [rename, same, if_false] at renamed

/-- A star loses a key. -/
theorem not_agrees_of_star (line : AsciiLine pattern) (simple : Simple pattern.toList)
    (more : pattern ≠ "*") (member : '*' ∈ pattern.toList) : ¬ Agrees pattern := by
  intro agrees
  have more' : Utf8.encode pattern ≠ [Glob.star] := fun same => more (encode_eq_star.mp same)
  have differ : (0x78 : UInt8) ≠ 0x79 := by decide
  obtain ⟨str, matched, rejected, bytes⟩ :=
    Glob.exists_rejected ((star_mem_encode line).mpr member) more' differ
  -- The string is spelt with bytes of the pattern and two letters, so it is a key.
  have spelt : ∀ byte ∈ str, ∃ c : Char, (c.toNat < 128 ∧ c ≠ '\n' ∧ c ≠ '\r') ∧
      UInt8.ofNat c.toNat = byte := by
    intro byte listed
    rcases bytes byte listed with rfl | rfl | inside
    · exact ⟨'x', by decide, rfl⟩
    · exact ⟨'y', by decide, rfl⟩
    · rw [Utf8.encode, Utf8.encodeChars_ascii fun c member => (line c member).1,
        List.mem_map] at inside
      obtain ⟨c, known, rfl⟩ := inside
      exact ⟨c, line c known, rfl⟩
  obtain ⟨key, keyLine, rfl⟩ := exists_key spelt
  have accepted : Accepts pattern key :=
    (accepts_iff keyLine simple).mpr (matches_undot ((matches_encode pattern keyLine).mp matched))
  exact rejected ((agrees key keyLine).mp accepted)

/-! ### Where both backends select the same keys -/

theorem undot_eq_self {pattern : List Char} (dots : '.' ∉ pattern) : undot pattern = pattern := by
  refine (List.map_congr_left fun c member => ?_).trans (List.map_id _)
  refine if_neg ?_
  rintro rfl
  exact dots member

theorem Simple.not_mem {pattern : List Char} (simple : Simple pattern) :
    '[' ∉ pattern ∧ '\\' ∉ pattern := by
  induction pattern with
  | nil => simp
  | cons c rest ih =>
    obtain ⟨plain, -, simple⟩ := simple
    have others := ih simple
    simp only [List.mem_cons, not_or] at plain ⊢
    exact ⟨⟨fun same => plain.2.2.2.2.2.2.1 same.symm, others.1⟩,
      fun same => plain.2.2.2.2.2.2.2.1 same.symm, others.2⟩

/-- On a key that the two matchers read in the same way, the backends differ if a dot reads another
character. -/
theorem agree_iff_of_exact (line : AsciiLine key) (simple : Simple pattern.toList)
    (exactly : matchesPattern (Utf8.encode key) (Utf8.encode pattern) = true ↔
      Glob.Matches (Utf8.encode pattern) (Utf8.encode key)) :
    (Accepts pattern key ↔ matchesPattern (Utf8.encode key) (Utf8.encode pattern) = true) ↔
      (Matches (undot pattern.toList) key.toList → Matches pattern.toList key.toList) := by
  rw [accepts_iff line simple, exactly, matches_encode pattern line]
  exact ⟨Iff.mp, fun dots => ⟨dots, matches_undot⟩⟩

theorem agrees_iff_of_simple (line : AsciiLine pattern) (simple : Simple pattern.toList) :
    Agrees pattern ↔ pattern = "*" ∨ '*' ∉ pattern.toList ∧ '.' ∉ pattern.toList := by
  constructor
  · intro agrees
    by_cases lone : pattern = "*"
    · exact .inl lone
    · obtain ⟨class', escape⟩ := simple.not_mem
      exact .inr ⟨fun star => not_agrees_of_star line simple lone star agrees,
        fun dot => not_agrees_of_mark line class' escape (by decide) dot agrees⟩
  · intro plain key keyLine
    have dots : '.' ∉ pattern.toList := by
      rcases plain with rfl | ⟨-, dots⟩
      · decide
      · exact dots
    refine (agree_iff_of_exact keyLine simple ?_).mpr (by rw [undot_eq_self dots]; exact id)
    refine Glob.always_exact_pattern_iff.mpr ?_ (Utf8.encode key)
    rw [star_mem_encode line, encode_eq_star]
    exact plain.symm.imp And.left id

/-- The two backends select the same ASCII keys for a simple pattern exactly when it is the star
alone or has neither a star nor a dot. They never do for a pattern with one of the marks that has no
class and no escape, nor for one that does not take itself as a key, as when `new RegExp` throws. On
a key without stars the dots of a simple pattern decide. -/
theorem redisKeys_agrees_iff (line : AsciiLine pattern) :
    (Simple pattern.toList →
      (Agrees pattern ↔ pattern = "*" ∨ '*' ∉ pattern.toList ∧ '.' ∉ pattern.toList)) ∧
    ('[' ∉ pattern.toList → '\\' ∉ pattern.toList → (∃ mark ∈ marks, mark ∈ pattern.toList) →
      ¬ Agrees pattern) ∧
    (¬ Accepts pattern pattern → ¬ Agrees pattern) ∧
    (Simple pattern.toList → ∀ key, AsciiLine key → '*' ∉ key.toList →
      ((Accepts pattern key ↔ matchesPattern (Utf8.encode key) (Utf8.encode pattern) = true) ↔
        (Matches (undot pattern.toList) key.toList → Matches pattern.toList key.toList))) := by
  refine ⟨agrees_iff_of_simple line, ?_, fun refused agrees => refused (agrees.accepts_self line),
    ?_⟩
  · rintro class' escape ⟨mark, special, member⟩
    exact not_agrees_of_mark line class' escape special member
  · intro simple key keyLine plain
    refine agree_iff_of_exact keyLine simple (Glob.always_exact_string_iff.mpr ?_ _)
    rwa [star_mem_encode keyLine]

/-- The backends read `a?c` alike, but neither `(a|?)c`, nor `[`, which throws. -/
theorem redisKeys_agrees_iff_question :
    Agrees "a?c" ∧ ¬ Agrees "(a|?)c" ∧ ¬ Agrees "[" ∧
      (Accepts "a.c" "a.c" ↔ matchesPattern (Utf8.encode "a.c") (Utf8.encode "a.c") = true) := by
  have thrown : ¬ Accepts "[" "[" := by
    rintro ⟨_, made, -⟩
    have compiled : RegExp.compile (regexSource "[".toList) = none := rfl
    rw [keysFilter, if_neg (by decide), compiled] at made
    cases made
  have literal : Matches "a.c".toList "a.c".toList := by simp [Wildcards.Matches]
  exact ⟨((redisKeys_agrees_iff (by simp [AsciiLine])).1 (by simp [Simple])).mpr (.inr (by decide)),
    (redisKeys_agrees_iff (by simp [AsciiLine])).2.1 (by decide) (by decide) ⟨'(', by decide⟩,
    (redisKeys_agrees_iff (by simp [AsciiLine])).2.2.1 thrown,
    ((redisKeys_agrees_iff (by simp [AsciiLine])).2.2.2 (by simp [Simple]) "a.c"
      (by simp [AsciiLine]) (by decide)).mpr fun _ => literal⟩

/-- The dot of `a.c` reads the `b` of `abc` in the mock backend alone. -/
theorem dot_pattern_disagrees :
    ¬ ∀ pattern key, AsciiLine pattern → AsciiLine key →
      (Accepts pattern key ↔ matchesPattern (Utf8.encode key) (Utf8.encode pattern) = true) := by
  intro agrees
  have patternLine : AsciiLine "a.c" := by simp [AsciiLine]
  have keyLine : AsciiLine "abc" := by simp [AsciiLine]
  have accepted : Accepts "a.c" "abc" := by
    refine ⟨_, rfl, ?_⟩
    decide
  have bytes : Utf8.encode "abc" = [0x61, 0x62, 0x63] ∧ Utf8.encode "a.c" = [0x61, 0x2E, 0x63] := by
    decide
  have rejected : matchesPattern [0x61, 0x62, 0x63] [0x61, 0x2E, 0x63] = false := by decide
  have same := (agrees "a.c" "abc" patternLine keyLine).mp accepted
  rw [bytes.1, bytes.2, rejected] at same
  cases same

end Backends

end MockCache
end ScuffedRedis
