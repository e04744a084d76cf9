import ScuffedRedis.Data.HashTable
import ScuffedRedis.Foundation.Slices
import ScuffedRedis.Foundation.Wildcards

/-!
# The wildcard matcher

The loop of `matches_pattern` goes back to the last star it has passed. It compares a symbol of the
pattern with the string before it asks whether the symbol is a star, so that a star of the pattern
that meets a star of the string is read as that star and never goes back.
-/
namespace ScuffedRedis
namespace Glob

open Foundation Wildcards

/-- The meaning of a pattern. -/
abbrev Matches (pattern str : Bytes) : Prop := Wildcards.Matches star questionMark pattern str

/-- The state before the loop. -/
def start : State := ⟨0, 0, none, 0⟩

/-- After a symbol of the pattern that is read as itself or as `?`. -/
def State.advance (g : State) : State :=
  { g with strIdx := g.strIdx + 1, patIdx := g.patIdx + 1 }

/-- After a star that is taken for a wildcard. -/
def State.wildcard (g : State) : State :=
  { g with starIdx := some g.patIdx, patIdx := g.patIdx + 1, matchIdx := g.strIdx }

/-- Back to the last star, which skips one more symbol. -/
def State.backtrack (g : State) : Option State :=
  g.starIdx.map fun starIdx =>
    { g with patIdx := starIdx + 1, matchIdx := g.matchIdx + 1, strIdx := g.matchIdx + 1 }

/-- The states at which the loop tests its condition. -/
inductive Reached (str pattern : Bytes) : State → Prop
  | start : Reached str pattern start
  | next {g next : State} : Reached str pattern g → g.strIdx < str.length →
      step str pattern g = some next → Reached str pattern next

/-- The loop can end well from a state if it may also take a star for a wildcard where the string
has a star. -/
inductive Readable (str pattern : Bytes) : State → Prop
  | done {g : State} : str.length ≤ g.strIdx → skipStars pattern g.patIdx = pattern.length →
      Readable str pattern g
  | step {g next : State} : g.strIdx < str.length → step str pattern g = some next →
      Readable str pattern next → Readable str pattern g
  | wildcard {g : State} : g.strIdx < str.length → pattern[g.patIdx]? = some star →
      Readable str pattern g.wildcard → Readable str pattern g

/-- A star of the pattern meets a star of the string. The rest of the string matches, but not when
the star is read as itself. -/
structure Misread (str pattern : Bytes) (g : State) : Prop where
  string : str[g.strIdx]? = some star
  symbol : pattern[g.patIdx]? = some star
  matched : Matches (pattern.drop g.patIdx) (str.drop g.strIdx)
  lost : ¬ Readable str pattern g.advance

/-! ### One iteration -/

section Step

variable {bytes rest : Bytes} {index : Nat} {byte : UInt8}

theorem getD_of_drop (here : bytes.drop index = byte :: rest) : bytes.getD index 0 = byte := by
  simp [List.getD_eq_getElem?_getD, getElem?_of_drop here]

variable {str pattern string : Bytes} {g : State} {first symbol : UInt8}
  (text : str.drop g.strIdx = first :: string)

include text

theorem step_read (symbols : pattern.drop g.patIdx = symbol :: rest)
    (reads : symbol = first ∨ symbol = questionMark) : step str pattern g = some g.advance := by
  simp only [step, getD_of_drop text, getD_of_drop symbols]
  rw [if_pos ⟨lt_of_drop symbols, reads⟩, State.advance]

theorem step_star (symbols : pattern.drop g.patIdx = star :: rest) (apart : first ≠ star) :
    step str pattern g = some g.wildcard := by
  have other : ¬ (star = first ∨ star = questionMark) := by
    simp only [Ne.symm apart, false_or]
    decide
  simp only [step, getD_of_drop text, getD_of_drop symbols]
  rw [if_neg (fun read => other read.2), if_pos ⟨lt_of_drop symbols, trivial⟩, State.wildcard]

/-- No reading and no star. -/
theorem step_stuck (stuck : ∀ symbol rest, pattern.drop g.patIdx = symbol :: rest →
      symbol ≠ star ∧ symbol ≠ first ∧ symbol ≠ questionMark) :
    step str pattern g = g.backtrack := by
  cases symbols : pattern.drop g.patIdx with
  | nil =>
    have outside : ¬ g.patIdx < pattern.length := not_lt.mpr (List.drop_eq_nil_iff.mp symbols)
    cases known : g.starIdx <;>
      simp [step, outside, State.backtrack, known]
  | cons symbol rest =>
    obtain ⟨plain, different, notAny⟩ := stuck symbol rest symbols
    cases known : g.starIdx <;>
      simp [step, getD_of_drop text, getD_of_drop symbols, plain, different, notAny,
        State.backtrack, known, -List.getD_eq_getElem?_getD]

variable (pattern) in
theorem step_cases :
    (∃ symbol rest, pattern.drop g.patIdx = symbol :: rest ∧
      (symbol = first ∨ symbol = questionMark) ∧ step str pattern g = some g.advance) ∨
    (∃ rest, pattern.drop g.patIdx = star :: rest ∧ first ≠ star ∧
      step str pattern g = some g.wildcard) ∨
    (∀ symbol rest, pattern.drop g.patIdx = symbol :: rest →
      symbol ≠ star ∧ symbol ≠ first ∧ symbol ≠ questionMark) ∧
      step str pattern g = g.backtrack := by
  cases symbols : pattern.drop g.patIdx with
  | nil => exact .inr (.inr ⟨by simp, step_stuck text (by simp [symbols])⟩)
  | cons symbol rest =>
    by_cases reads : symbol = first ∨ symbol = questionMark
    · exact .inl ⟨symbol, rest, rfl, reads, step_read text symbols reads⟩
    · rw [not_or] at reads
      by_cases special : symbol = star
      · subst special
        exact .inr (.inl ⟨rest, rfl, Ne.symm reads.1, step_star text symbols (Ne.symm reads.1)⟩)
      · have stuck : ∀ other after, symbol :: rest = other :: after →
            other ≠ star ∧ other ≠ first ∧ other ≠ questionMark := by
          rintro other after ⟨⟩
          exact ⟨special, reads⟩
        exact .inr (.inr ⟨stuck, step_stuck text (by rwa [symbols])⟩)

end Step

/-! ### Moves -/

/-- One iteration, which may also take a star for a wildcard where the string has a star. -/
inductive Move (str pattern : Bytes) (g : State) : State → Prop
  | read {first symbol : UInt8} {string rest : Bytes} : str.drop g.strIdx = first :: string →
      pattern.drop g.patIdx = symbol :: rest → symbol = first ∨ symbol = questionMark →
      Move str pattern g g.advance
  | wildcard {rest : Bytes} : g.strIdx < str.length → pattern.drop g.patIdx = star :: rest →
      Move str pattern g g.wildcard
  | backtrack {next : State} : g.strIdx < str.length → g.backtrack = some next →
      Move str pattern g next

/-- The indices stay inside the string and the pattern. -/
structure Inside (str pattern : Bytes) (g : State) : Prop where
  string : g.strIdx ≤ str.length
  symbol : g.patIdx ≤ pattern.length
  skipped : g.matchIdx ≤ g.strIdx
  star : ∀ starIdx ∈ g.starIdx, starIdx < pattern.length

/-- Where the loop is within its backtracks. -/
def potential (str pattern : Bytes) (g : State) : Nat :=
  (str.length - g.matchIdx) * (pattern.length + 1) + (pattern.length - g.patIdx)

/-- The rest of the string matches the rest of the pattern, or the last star can skip more. -/
def Open (str pattern : Bytes) (g : State) : Prop :=
  Matches (pattern.drop g.patIdx) (str.drop g.strIdx) ∨
    ∃ starIdx ∈ g.starIdx, ∃ later, g.matchIdx < later ∧ later ≤ str.length ∧
      Matches (pattern.drop (starIdx + 1)) (str.drop later)

section Moves

variable {str pattern : Bytes} {g next : State}

theorem move_of_step (inside : g.strIdx < str.length) (stepped : step str pattern g = some next) :
    Move str pattern g next := by
  obtain ⟨first, string, text⟩ := exists_drop inside
  obtain ⟨symbol, rest, symbols, reads, taken⟩ | ⟨rest, symbols, -, taken⟩ | ⟨-, taken⟩ :=
    step_cases pattern text
  · obtain rfl := Option.some.inj (taken.symm.trans stepped)
    exact .read text symbols reads
  · obtain rfl := Option.some.inj (taken.symm.trans stepped)
    exact .wildcard inside symbols
  · exact .backtrack inside (taken.symm.trans stepped)

theorem backtrack_eq_some (back : g.backtrack = some next) :
    ∃ starIdx ∈ g.starIdx, next =
      { g with patIdx := starIdx + 1, matchIdx := g.matchIdx + 1, strIdx := g.matchIdx + 1 } := by
  obtain ⟨starIdx, known, made⟩ := Option.map_eq_some_iff.mp back
  exact ⟨starIdx, known, made.symm⟩

theorem start_inside : Inside str pattern start := by
  constructor <;> simp [start]

theorem Move.inside (moved : Move str pattern g next) (kept : Inside str pattern g) :
    Inside str pattern next := by
  obtain ⟨string, symbol, skipped, stars⟩ := kept
  cases moved with
  | read text symbols _ =>
    have left := lt_of_drop text
    have more := lt_of_drop symbols
    exact ⟨left, more, Nat.le_succ_of_le skipped, stars⟩
  | wildcard left symbols =>
    have more := lt_of_drop symbols
    refine ⟨string, more, Nat.le_refl _, ?_⟩
    simpa [State.wildcard] using more
  | backtrack left back =>
    obtain ⟨starIdx, known, rfl⟩ := backtrack_eq_some back
    exact ⟨Nat.lt_of_le_of_lt skipped left, stars starIdx known, Nat.le_refl _, stars⟩

theorem Move.potential_lt (moved : Move str pattern g next) (kept : Inside str pattern g) :
    potential str pattern next < potential str pattern g := by
  obtain ⟨string, symbol, skipped, stars⟩ := kept
  cases moved with
  | read text symbols _ =>
    have more := lt_of_drop symbols
    simp only [potential, State.advance]
    omega
  | wildcard left symbols =>
    have more := lt_of_drop symbols
    -- `matchIdx` moves up to `strIdx`, or stays.
    have fewer : (str.length - g.strIdx) * (pattern.length + 1) ≤
        (str.length - g.matchIdx) * (pattern.length + 1) := by
      apply Nat.mul_le_mul_right
      omega
    simp only [potential, State.wildcard]
    omega
  | backtrack left back =>
    obtain ⟨starIdx, known, rfl⟩ := backtrack_eq_some back
    have inner := stars starIdx known
    have ahead : str.length - g.matchIdx = (str.length - (g.matchIdx + 1)) + 1 := by omega
    simp only [potential, ahead, Nat.succ_mul]
    omega

theorem matches_of_wildcard (kept : Inside str pattern g) {rest : Bytes}
    (symbols : pattern.drop g.patIdx = star :: rest) (opened : Open str pattern g.wildcard) :
    Matches (pattern.drop g.patIdx) (str.drop g.strIdx) := by
  rw [symbols, Matches, matches_star_drop kept.string, ← drop_succ symbols]
  obtain matched | ⟨starIdx, known, later, after, within, matched⟩ := opened
  · exact ⟨g.strIdx, Nat.le_refl _, kept.string, matched⟩
  · obtain rfl : g.patIdx = starIdx := by simpa [State.wildcard] using known
    exact ⟨later, Nat.le_of_lt after, within, matched⟩

/-- What is open after a move was open before it. -/
theorem Move.open_of (moved : Move str pattern g next) (kept : Inside str pattern g)
    (opened : Open str pattern next) : Open str pattern g := by
  cases moved with
  | read text symbols reads =>
    obtain matched | later := opened
    · apply Or.inl
      simp only [State.advance, drop_succ text, drop_succ symbols] at matched
      rw [text, symbols]
      exact matches_read reads matched
    · exact .inr later
  | wildcard left symbols =>
    exact .inl (matches_of_wildcard kept symbols opened)
  | backtrack left back =>
    obtain ⟨starIdx, known, rfl⟩ := backtrack_eq_some back
    have skipped := kept.skipped
    apply Or.inr
    obtain matched | ⟨_, same, later, after, within, matched⟩ := opened
    · exact ⟨starIdx, known, g.matchIdx + 1, Nat.lt_succ_self _, by omega, matched⟩
    · exact ⟨_, same, later, Nat.lt_of_succ_lt after, within, matched⟩

end Moves

/-! ### Readings -/

section Readings

variable {str pattern : Bytes} {g : State}

/-- The last loop comes to the end of the pattern when it skips stars only. -/
theorem skipStars_iff {patIdx : Nat} (within : patIdx ≤ pattern.length) :
    skipStars pattern patIdx = pattern.length ↔
      Matches (pattern.drop patIdx) [] := by
  rw [Matches, matches_empty_iff, skipStars]
  have whole := List.takeWhile_prefix (l := pattern.drop patIdx) (· == star)
  constructor
  · intro ended
    have all : (pattern.drop patIdx).takeWhile (· == star) = pattern.drop patIdx := by
      apply whole.eq_of_length
      rw [List.length_drop]
      omega
    simpa using List.takeWhile_eq_self_iff.mp all
  · intro stars
    have all : (pattern.drop patIdx).takeWhile (· == star) = pattern.drop patIdx := by
      apply List.takeWhile_eq_self_iff.mpr
      simpa using stars
    rw [all, List.length_drop]
    omega

theorem Readable.opened (readable : Readable str pattern g) (kept : Inside str pattern g) :
    Open str pattern g := by
  -- Back from the end: every move leaves open only what was open.
  induction readable with
  | done ended skipped =>
    apply Or.inl
    rw [List.drop_eq_nil_of_le ended]
    exact (skipStars_iff kept.symbol).mp skipped
  | step left stepped _ ih =>
    have moved := move_of_step left stepped
    exact moved.open_of kept (ih (moved.inside kept))
  | @wildcard g left special _ ih =>
    have moved : Move str pattern g g.wildcard := .wildcard left (drop_of_getElem? special)
    exact moved.open_of kept (ih (moved.inside kept))

/-- The symbols of the pattern since the last star, which has skipped up to `matchIdx`, are no
stars. -/
def Clean (pattern : Bytes) (g : State) : Prop :=
  ∀ starIdx ∈ g.starIdx, ∃ block, pattern.drop (starIdx + 1) = block ++ pattern.drop g.patIdx ∧
    star ∉ block ∧ g.matchIdx + block.length = g.strIdx

theorem Clean.advance (clean : Clean pattern g) {symbol : UInt8} {rest : Bytes}
    (symbols : pattern.drop g.patIdx = symbol :: rest) (plain : symbol ≠ star) :
    Clean pattern g.advance := by
  intro starIdx known
  obtain ⟨block, split, free, length⟩ := clean starIdx known
  refine ⟨block ++ [symbol], ?_, ?_, ?_⟩
  · simp [State.advance, split, symbols, drop_succ symbols]
  · simp [free, Ne.symm plain]
  · simp [State.advance, ← length, Nat.add_assoc]

theorem clean_wildcard : Clean pattern g.wildcard := by
  intro starIdx known
  obtain rfl : g.patIdx = starIdx := by simpa [State.wildcard] using known
  exact ⟨[], by simp [State.wildcard]⟩

theorem clean_backtrack {next : State} (back : g.backtrack = some next) : Clean pattern next := by
  obtain ⟨starIdx, known, rfl⟩ := backtrack_eq_some back
  intro other same
  obtain rfl : starIdx = other := Option.some.inj (known.symm.trans same)
  exact ⟨[], by simp⟩

/-- A later place of the last star leads, past the symbols since that star, to a later place of the
string. -/
theorem Clean.later (clean : Clean pattern g) {starIdx later : Nat} (known : starIdx ∈ g.starIdx)
    (after : g.matchIdx < later) (within : later ≤ str.length)
    (matched : Matches (pattern.drop (starIdx + 1)) (str.drop later)) :
    ∃ place, g.strIdx < place ∧ place ≤ str.length ∧
      Matches (pattern.drop g.patIdx) (str.drop place) := by
  obtain ⟨block, split, free, length⟩ := clean starIdx known
  rw [split] at matched
  obtain ⟨inside, rest⟩ := matches_block_drop free within matched
  exact ⟨later + block.length, by omega, inside, rest⟩

theorem Open.advance (opened : Open str pattern g) {first symbol : UInt8} {string rest : Bytes}
    (text : str.drop g.strIdx = first :: string) (symbols : pattern.drop g.patIdx = symbol :: rest)
    (plain : symbol ≠ star) : Open str pattern g.advance := by
  obtain matched | later := opened
  · rw [symbols, text, Matches, matches_cons plain] at matched
    apply Or.inl
    simpa only [State.advance, drop_succ text, drop_succ symbols] using matched.2
  · exact .inr later

theorem Open.wildcard (opened : Open str pattern g) (kept : Inside str pattern g)
    (clean : Clean pattern g) {rest : Bytes} (symbols : pattern.drop g.patIdx = star :: rest) :
    Open str pattern g.wildcard := by
  have place : ∃ place, g.strIdx ≤ place ∧ place ≤ str.length ∧
      Matches (pattern.drop g.patIdx) (str.drop place) := by
    obtain matched | ⟨starIdx, known, later, after, within, matched⟩ := opened
    · exact ⟨g.strIdx, Nat.le_refl _, kept.string, matched⟩
    · obtain ⟨place, beyond, inside, matched⟩ := clean.later known after within matched
      exact ⟨place, Nat.le_of_lt beyond, inside, matched⟩
  obtain ⟨place, beyond, inside, matched⟩ := place
  rw [symbols, Matches, matches_star_drop inside, ← drop_succ symbols] at matched
  obtain ⟨later, after, within, matched⟩ := matched
  rcases Nat.eq_or_lt_of_le (Nat.le_trans beyond after) with same | ahead
  · exact .inl (by rwa [← same] at matched)
  · exact .inr ⟨g.patIdx, rfl, later, ahead, within, matched⟩

/-- Where no symbol can be read and no star stands, only the last star can be open. -/
theorem Open.backtrack (opened : Open str pattern g) {first : UInt8} {string : Bytes}
    (text : str.drop g.strIdx = first :: string)
    (stuck : ∀ symbol rest, pattern.drop g.patIdx = symbol :: rest →
      symbol ≠ star ∧ symbol ≠ first ∧ symbol ≠ questionMark) :
    ∃ next, g.backtrack = some next ∧ Open str pattern next := by
  obtain matched | ⟨starIdx, known, later, after, within, matched⟩ := opened
  · -- The rest cannot match as it stands.
    exfalso
    cases symbols : pattern.drop g.patIdx with
    | nil => simp [symbols, text, Matches] at matched
    | cons symbol rest =>
      obtain ⟨plain, different, notAny⟩ := stuck symbol rest symbols
      rw [symbols, text, Matches, matches_cons plain] at matched
      exact matched.1.elim notAny different
  · refine ⟨_, Option.map_eq_some_iff.mpr ⟨starIdx, known, rfl⟩, ?_⟩
    rcases Nat.eq_or_lt_of_le (Nat.succ_le_of_lt after) with same | ahead
    · subst same
      exact .inl matched
    · exact .inr ⟨starIdx, known, later, ahead, within, matched⟩

/-- A loop that takes every star for a wildcard ends well wherever the rest is open. -/
theorem readable_of_open (kept : Inside str pattern g) (clean : Clean pattern g)
    (opened : Open str pattern g) : Readable str pattern g := by
  -- Every move lowers the potential, so the moves of such a loop come to an end.
  induction size : potential str pattern g using Nat.strong_induction_on generalizing g with
  | _ size ih =>
    subst size
    rcases Nat.lt_or_ge g.strIdx str.length with left | ended
    · obtain ⟨first, string, text⟩ := exists_drop left
      by_cases special : ∃ rest, pattern.drop g.patIdx = star :: rest
      · obtain ⟨rest, symbols⟩ := special
        have moved : Move str pattern g g.wildcard := .wildcard left symbols
        exact .wildcard left (getElem?_of_drop symbols)
          (ih _ (moved.potential_lt kept) (moved.inside kept) clean_wildcard
            (opened.wildcard kept clean symbols) rfl)
      · obtain ⟨symbol, rest, symbols, reads, stepped⟩ | ⟨rest, symbols, -⟩ | ⟨stuck, stepped⟩ :=
          step_cases pattern text
        · have plain : symbol ≠ star := fun same => special ⟨rest, same ▸ symbols⟩
          have moved : Move str pattern g g.advance := .read text symbols reads
          exact .step left stepped (ih _ (moved.potential_lt kept) (moved.inside kept)
            (clean.advance symbols plain) (opened.advance text symbols plain) rfl)
        · exact absurd ⟨rest, symbols⟩ special
        · obtain ⟨next, back, opened⟩ := opened.backtrack text stuck
          have moved : Move str pattern g next := .backtrack left back
          exact .step left (stepped.trans back) (ih _ (moved.potential_lt kept)
            (moved.inside kept) (clean_backtrack back) opened rfl)
    · have last : g.strIdx = str.length := Nat.le_antisymm kept.string ended
      apply Readable.done ended
      obtain matched | ⟨starIdx, known, later, after, within, matched⟩ := opened
      · rw [List.drop_eq_nil_of_le ended] at matched
        exact (skipStars_iff kept.symbol).mpr matched
      · obtain ⟨place, beyond, inside, -⟩ := clean.later known after within matched
        omega

end Readings

/-! ### The loop -/

/-- The exit of the main loop makes the matcher answer true. -/
def Accepted (pattern : Bytes) (exit : Exit) : Prop :=
  ∃ patIdx, exit = .done patIdx ∧ skipStars pattern patIdx = pattern.length

section Loop

variable {str pattern : Bytes} {g : State}

theorem matchesPattern_iff : matchesPattern str pattern = true ↔
    pattern = [star] ∨ Accepted pattern (loop str pattern (fuel str pattern) start) := by
  rw [matchesPattern, Accepted, start]
  split
  next lone => simp [lone]
  next more =>
    cases left : loop str pattern (fuel str pattern) ⟨0, 0, none, 0⟩ <;> simp [more]

theorem loop_next {fuel : Nat} {next : State} (left : g.strIdx < str.length)
    (stepped : step str pattern g = some next) :
    loop str pattern (fuel + 1) g = loop str pattern fuel next := by
  simp [loop, left, stepped]

theorem loop_ended {fuel : Nat} (ended : str.length ≤ g.strIdx) :
    loop str pattern (fuel + 1) g = .done g.patIdx := by
  simp [loop, Nat.not_lt.mpr ended]

/-- What the loop does, a reading does. -/
theorem readable_of_accepted {fuel : Nat} (accepted : Accepted pattern (loop str pattern fuel g)) :
    Readable str pattern g := by
  induction fuel generalizing g with
  | zero => simp [Accepted, loop] at accepted
  | succ fuel ih =>
    rcases Nat.lt_or_ge g.strIdx str.length with left | ended
    · cases stepped : step str pattern g with
      | none => simp [Accepted, loop, left, stepped] at accepted
      | some next =>
        rw [loop_next left stepped] at accepted
        exact .step left stepped (ih accepted)
    · rw [loop_ended ended] at accepted
      obtain ⟨patIdx, same, skipped⟩ := accepted
      cases same
      exact .done ended skipped

/-- The loop that ends well from the start ends well from each state that it reaches. -/
theorem Reached.accepted {fuel : Nat} (reached : Reached str pattern g)
    (accepted : Accepted pattern (loop str pattern fuel Glob.start)) :
    ∃ rest, Accepted pattern (loop str pattern rest g) := by
  induction reached with
  | start => exact ⟨fuel, accepted⟩
  | next _ left stepped ih =>
    obtain ⟨rest, accepted⟩ := ih
    cases rest with
    | zero => simp [Accepted, loop] at accepted
    | succ rest =>
      rw [loop_next left stepped] at accepted
      exact ⟨rest, accepted⟩

theorem Reached.inside (reached : Reached str pattern g) : Inside str pattern g := by
  induction reached with
  | start => exact start_inside
  | next _ left stepped ih => exact (move_of_step left stepped).inside ih

theorem Reached.opened (reached : Reached str pattern g) (opened : Open str pattern g) :
    Open str pattern Glob.start := by
  induction reached with
  | start => exact opened
  | next before left stepped ih =>
    exact ih ((move_of_step left stepped).open_of before.inside opened)

theorem open_start : Open str pattern start ↔ Matches pattern str := by
  simp [Open, start]

/-- The loop that never misreads a star ends well from wherever it is possible. -/
theorem loop_accepted {fuel : Nat} (enough : potential str pattern g < fuel)
    (reached : Reached str pattern g)
    (faithful : ∀ g, Reached str pattern g → ¬ Misread str pattern g)
    (readable : Readable str pattern g) : Accepted pattern (loop str pattern fuel g) := by
  induction fuel generalizing g with
  | zero => omega
  | succ fuel ih =>
    have kept := reached.inside
    have follow : ∀ {next : State}, g.strIdx < str.length → step str pattern g = some next →
        Readable str pattern next → Accepted pattern (loop str pattern (fuel + 1) g) := by
      intro next left stepped readable
      have lower := (move_of_step left stepped).potential_lt kept
      rw [loop_next left stepped]
      exact ih (by omega) (.next reached left stepped) readable
    cases readable with
    | done ended skipped =>
      rw [loop_ended ended]
      exact ⟨g.patIdx, rfl, skipped⟩
    | step left stepped readable => exact follow left stepped readable
    | wildcard left special readable =>
      have symbols := drop_of_getElem? special
      obtain ⟨first, string, text⟩ := exists_drop left
      by_cases same : first = star
      · -- The loop reads the star as itself, so the reading has to go on after that.
        have moved : Move str pattern g g.wildcard := .wildcard left symbols
        have matched : Matches (pattern.drop g.patIdx) (str.drop g.strIdx) :=
          matches_of_wildcard kept symbols (readable.opened (moved.inside kept))
        have literal : Readable str pattern g.advance := by
          by_contra lost
          exact faithful g reached ⟨same ▸ getElem?_of_drop text, special, matched, lost⟩
        exact follow left (step_read text symbols (.inl same.symm)) literal
      · exact follow left (step_star text symbols same) readable

end Loop

/-! ### Where the matcher is exact -/

section Exact

variable {str pattern : Bytes} {g : State}

theorem start_potential : potential str pattern start < fuel str pattern := by
  have wider : (str.length + 2) * (pattern.length + 2) =
      str.length * (pattern.length + 1) + str.length + 2 * (pattern.length + 2) := by ring
  simp only [potential, start, fuel, wider, Nat.sub_zero]
  omega

/-- The matcher accepts nothing that does not match. -/
theorem matches_of_matchesPattern (accepted : matchesPattern str pattern = true) :
    Matches pattern str := by
  obtain rfl | accepted := matchesPattern_iff.mp accepted
  · exact matches_star.mpr ⟨str, [], by simp⟩
  · exact open_start.mp ((readable_of_accepted accepted).opened start_inside)

theorem matchesPattern_of_matches (faithful : ∀ g, Reached str pattern g → ¬ Misread str pattern g)
    (matched : Matches pattern str) : matchesPattern str pattern = true := by
  have clean : Clean pattern start := by simp [Clean, start]
  have readable := readable_of_open start_inside clean (open_start.mpr matched)
  exact matchesPattern_iff.mpr (.inr (loop_accepted start_potential .start faithful readable))

theorem Misread.not_accepted (misread : Misread str pattern g) (fuel : Nat) :
    ¬ Accepted pattern (loop str pattern fuel g) := by
  intro accepted
  have text := drop_of_getElem? misread.string
  have left := lt_of_drop text
  have stepped := step_read text (drop_of_getElem? misread.symbol) (.inl rfl)
  cases fuel with
  | zero => simp [Accepted, loop] at accepted
  | succ fuel =>
    rw [loop_next left stepped] at accepted
    exact misread.lost (readable_of_accepted accepted)

/-- A misread star loses a match. -/
theorem Reached.lost (reached : Reached str pattern g) (misread : Misread str pattern g)
    (more : pattern ≠ [star]) : Matches pattern str ∧ ¬ matchesPattern str pattern = true := by
  refine ⟨open_start.mp (reached.opened (.inl misread.matched)), ?_⟩
  intro accepted
  obtain ⟨rest, accepted⟩ := reached.accepted ((matchesPattern_iff.mp accepted).resolve_left more)
  exact misread.not_accepted rest accepted

theorem exact_iff : (matchesPattern str pattern = true ↔ Matches pattern str) ↔
    pattern = [star] ∨ ∀ g, Reached str pattern g → ¬ Misread str pattern g := by
  constructor
  · intro exactly
    by_contra wrong
    rw [not_or] at wrong
    obtain ⟨more, wrong⟩ := wrong
    push Not at wrong
    obtain ⟨g, reached, misread⟩ := wrong
    obtain ⟨matched, rejected⟩ := reached.lost misread more
    exact rejected (exactly.mpr matched)
  · rintro (rfl | faithful)
    · exact ⟨matches_of_matchesPattern, fun _ => matchesPattern_iff.mpr (.inl rfl)⟩
    · exact ⟨matches_of_matchesPattern, matchesPattern_of_matches faithful⟩

end Exact

/-! ### Patterns and strings that are always read well -/

section Always

variable {str pattern rest : Bytes} {g : State}

/-- The matcher does not answer true from a state, however long it runs. -/
def Rejected (str pattern : Bytes) (g : State) : Prop :=
  ∀ fuel, ¬ Accepted pattern (loop str pattern fuel g)

theorem rejected_of_step {next : State} (left : g.strIdx < str.length)
    (stepped : step str pattern g = some next) (rejected : Rejected str pattern next) :
    Rejected str pattern g := by
  intro fuel
  cases fuel with
  | zero => simp [Accepted, loop]
  | succ fuel =>
    rw [loop_next left stepped]
    exact rejected fuel

theorem rejected_of_stuck (left : g.strIdx < str.length) (stuck : step str pattern g = none) :
    Rejected str pattern g := by
  intro fuel
  cases fuel <;> simp [Accepted, loop, left, stuck]

theorem rejected_of_ended (ended : str.length ≤ g.strIdx)
    (more : skipStars pattern g.patIdx ≠ pattern.length) : Rejected str pattern g := by
  intro fuel
  cases fuel with
  | zero => simp [Accepted, loop]
  | succ fuel =>
    rw [loop_ended ended]
    simp [Accepted, more]

/-- Before the first star that is a wildcard, the rest of the pattern and of the string decide. -/
def Loses (rest string : Bytes) : Prop :=
  ∀ (str pattern : Bytes) (g : State), g.starIdx = none → pattern.drop g.patIdx = rest →
    str.drop g.strIdx = string → Rejected str pattern g

theorem Loses.read {first symbol : UInt8} {string : Bytes} (loses : Loses rest string)
    (reads : symbol = first ∨ symbol = questionMark) :
    Loses (symbol :: rest) (first :: string) := by
  intro str pattern g none symbols text
  apply rejected_of_step (lt_of_drop text) (step_read text symbols reads)
  exact loses str pattern g.advance none (drop_succ symbols) (drop_succ text)

theorem Loses.front {front read string : Bytes} (loses : Loses rest string)
    (reads : List.Forall₂ (fun symbol first => symbol = first ∨ symbol = questionMark) front read) :
    Loses (front ++ rest) (read ++ string) := by
  induction reads with
  | nil => exact loses
  | cons same _ ih => exact ih.read same

theorem Loses.rejected (loses : Loses pattern str) (more : pattern ≠ [star]) :
    ¬ matchesPattern str pattern = true := by
  rw [matchesPattern_iff, not_or]
  exact ⟨more, loses str pattern start rfl rfl rfl _⟩

/-- A symbol that does not stand in the string loses where no star has been passed. -/
theorem loses_of_stuck {first : UInt8} {string : Bytes}
    (stuck : ∀ symbol after, rest = symbol :: after →
      symbol ≠ star ∧ symbol ≠ first ∧ symbol ≠ questionMark) : Loses rest (first :: string) := by
  intro str pattern g none symbols text
  have last : step str pattern g = g.backtrack :=
    step_stuck text fun symbol after same => stuck symbol after (symbols.symm.trans same)
  apply rejected_of_stuck (lt_of_drop text)
  simp [last, State.backtrack, none]

theorem loses_of_ended (more : ∃ symbol ∈ rest, symbol ≠ star) : Loses rest [] := by
  intro str pattern g none symbols text
  apply rejected_of_ended (List.drop_eq_nil_iff.mp text)
  intro skipped
  obtain ⟨symbol, member, plain⟩ := more
  have within : g.patIdx ≤ pattern.length := by
    by_contra outside
    rw [List.drop_eq_nil_of_le (by omega)] at symbols
    simp [← symbols] at member
  have stars := (skipStars_iff within).mp skipped
  rw [symbols, Matches, matches_empty_iff] at stars
  exact plain (stars symbol member)

/-- Every symbol may be read as itself. -/
theorem reads_self (front : Bytes) :
    List.Forall₂ (fun symbol first => symbol = first ∨ symbol = questionMark) front front :=
  List.forall₂_same.mpr fun _ _ => .inl rfl

theorem reads_any (string : Bytes) :
    List.Forall₂ (fun symbol first => symbol = first ∨ symbol = questionMark)
      (List.replicate string.length questionMark) string := by
  induction string with
  | nil => exact .nil
  | cons first string ih => exact .cons (.inr rfl) ih

theorem loses_short (string : Bytes) :
    Loses (questionMark :: List.replicate string.length questionMark) string := by
  induction string with
  | nil => exact loses_of_ended ⟨questionMark, by simp, by decide⟩
  | cons first string ih => exact ih.read (.inr rfl)

/-- After a star there is a string that matches and that is lost when the star is read as itself. Of
any two bytes that differ it needs one at most, besides the symbols of the pattern. -/
theorem exists_lost (rest : Bytes) {one two : UInt8} (differ : one ≠ two) :
    ∃ string, Loses rest string ∧ Matches (star :: rest) (star :: string) ∧
      ∀ byte ∈ string, byte = star ∨ byte = one ∨ byte = two ∨ byte ∈ rest := by
  induction rest with
  | nil =>
    -- The pattern has come to its end before the string.
    refine ⟨[one], loses_of_stuck (by simp), ?_, by simp⟩
    exact matches_star.mpr ⟨[star, one], [], by simp⟩
  | cons symbol rest ih =>
    obtain ⟨string, loses, matched, bytes⟩ := ih
    have longer (byte : UInt8) (listed : byte ∈ star :: string) :
        byte = star ∨ byte = one ∨ byte = two ∨ byte ∈ symbol :: rest := by
      rcases List.mem_cons.mp listed with rfl | listed
      · exact .inl rfl
      · exact (bytes byte listed).imp id (Or.imp id (Or.imp id (List.mem_cons_of_mem symbol)))
    by_cases special : symbol = star
    · subst special
      exact ⟨star :: string, loses.read (.inl rfl), matches_star_self (matches_star_cons matched _),
        longer⟩
    by_cases any : symbol = questionMark
    · subst any
      exact ⟨star :: string, loses.read (.inr rfl), matches_star_any matched star, longer⟩
    · -- One symbol that does not fit, and then a string that does.
      obtain ⟨other, apart, either⟩ : ∃ other, other ≠ symbol ∧ (other = one ∨ other = two) := by
        by_cases same : one = symbol
        · exact ⟨two, fun same' => differ (same.trans same'.symm), .inr rfl⟩
        · exact ⟨one, same, .inl rfl⟩
      refine ⟨other :: symbol :: rest, loses_of_stuck ?_, ?_, ?_⟩
      · rintro _ _ ⟨⟩
        exact ⟨special, Ne.symm apart, any⟩
      · have itself : Matches (symbol :: rest ++ []) (symbol :: rest ++ []) :=
          matches_append (reads_self (symbol :: rest)) (matches_nil.mpr rfl)
        simp only [List.append_nil] at itself
        exact matches_star.mpr ⟨[star, other], symbol :: rest, rfl, itself⟩
      · intro byte listed
        rcases List.mem_cons.mp listed with rfl | listed
        · exact .inr (either.imp id .inl)
        · exact .inr (.inr (.inr listed))

/-- A pattern that has a star and more loses a string, with no new bytes but these. -/
theorem exists_rejected (member : star ∈ pattern) (more : pattern ≠ [star]) {one two : UInt8}
    (differ : one ≠ two) :
    ∃ str, Matches pattern str ∧ ¬ matchesPattern str pattern = true ∧
      ∀ byte ∈ str, byte = one ∨ byte = two ∨ byte ∈ pattern := by
  obtain ⟨front, rest, rfl⟩ := List.append_of_mem member
  obtain ⟨string, loses, matched, bytes⟩ := exists_lost rest differ
  have lost := (loses.read (.inl (Eq.refl star))).front (reads_self front)
  refine ⟨front ++ star :: string, matches_append (reads_self front) matched, lost.rejected more,
    ?_⟩
  intro byte listed
  rw [List.mem_append, List.mem_cons]
  rcases List.mem_append.mp listed with before | listed
  · exact .inr (.inr (.inl before))
  rcases List.mem_cons.mp listed with here | after
  · exact .inr (.inr (.inr (.inl here)))
  · rcases bytes byte after with star | one | two | rest
    · exact .inr (.inr (.inr (.inl star)))
    · exact .inl one
    · exact .inr (.inl two)
    · exact .inr (.inr (.inr (.inr rest)))

theorem accepted_self {fuel : Nat} (within : g.strIdx ≤ str.length) (same : g.patIdx = g.strIdx)
    (enough : str.length - g.strIdx < fuel) : Accepted str (loop str str fuel g) := by
  induction fuel generalizing g with
  | zero => omega
  | succ fuel ih =>
    rcases Nat.lt_or_ge g.strIdx str.length with left | ended
    · obtain ⟨first, string, text⟩ := exists_drop left
      have symbols : str.drop g.patIdx = first :: string := by rw [same, text]
      rw [loop_next left (step_read text symbols (.inl rfl))]
      exact ih left (congrArg (· + 1) same) (by simp only [State.advance]; omega)
    · rw [loop_ended ended, same]
      refine ⟨g.strIdx, rfl, ?_⟩
      rw [skipStars, List.drop_eq_nil_of_le ended]
      exact Nat.le_antisymm within ended

/-- A pattern finds itself. -/
theorem matchesPattern_self (pattern : Bytes) : matchesPattern pattern pattern = true := by
  refine matchesPattern_iff.mpr (.inr (accepted_self (Nat.zero_le _) rfl ?_))
  have wide : (pattern.length + 2) * 1 ≤ (pattern.length + 2) * (pattern.length + 2) :=
    Nat.mul_le_mul_left _ (by omega)
  simp only [fuel, start]
  omega

theorem always_exact_pattern_iff :
    (∀ str, matchesPattern str pattern = true ↔ Matches pattern str) ↔
      star ∉ pattern ∨ pattern = [star] := by
  constructor
  · intro exactly
    by_contra wrong
    rw [not_or, not_not] at wrong
    have differ : (0 : UInt8) ≠ 1 := by decide
    obtain ⟨str, matched, rejected, -⟩ := exists_rejected wrong.1 wrong.2 differ
    exact rejected ((exactly str).mpr matched)
  · rintro (plain | rfl) str
    · exact exact_iff.mpr (.inr fun g _ misread => plain (List.mem_of_getElem? misread.symbol))
    · exact exact_iff.mpr (.inl rfl)

theorem always_exact_string_iff :
    (∀ pattern, matchesPattern str pattern = true ↔ Matches pattern str) ↔ star ∉ str := by
  constructor
  · intro exactly member
    obtain ⟨front, rest, rfl⟩ := List.append_of_mem member
    -- The string has one symbol too few for the question marks after the star.
    have lost := ((loses_short rest).read (.inl (Eq.refl star))).front (reads_self front)
    have matched : Matches (star :: questionMark :: List.replicate rest.length questionMark)
        (star :: rest) := by
      have whole : Matches (List.replicate (star :: rest).length questionMark ++ [])
          (star :: rest ++ []) := matches_append (reads_any (star :: rest)) (matches_nil.mpr rfl)
      simp only [List.append_nil, List.length_cons, List.replicate_succ] at whole
      exact matches_star_self whole
    have more : front ++ star :: questionMark :: List.replicate rest.length questionMark ≠
        [star] := by simp [List.append_eq_singleton_iff]
    exact lost.rejected more ((exactly _).mpr (matches_append (reads_self front) matched))
  · intro plain pattern
    exact exact_iff.mpr (.inr fun g _ misread => plain (List.mem_of_getElem? misread.string))

end Always

/-- The matcher answers as the pattern means exactly when it is the star alone or no star of it that
meets a star of the string is misread. It does so for every string exactly when the pattern has no
star or is the star alone, and with every pattern exactly when the string has no star. -/
theorem matchesPattern_exact_iff (str pattern : Bytes) :
    ((matchesPattern str pattern = true ↔ Matches pattern str) ↔
      pattern = [star] ∨ ∀ g, Reached str pattern g → ¬ Misread str pattern g) ∧
    ((∀ str, matchesPattern str pattern = true ↔ Matches pattern str) ↔
      star ∉ pattern ∨ pattern = [star]) ∧
    ((∀ pattern, matchesPattern str pattern = true ↔ Matches pattern str) ↔ star ∉ str) :=
  ⟨exact_iff, always_exact_pattern_iff, always_exact_string_iff⟩

/-- `*b` does not find `*ab`. -/
theorem star_key_not_matched :
    ¬ ∀ str pattern, matchesPattern str pattern = true ↔ Matches pattern str := by
  intro exactly
  have matched : Matches [star, 0x62] [star, 0x61, 0x62] := by
    refine matches_star.mpr ⟨[star, 0x61], [0x62], rfl, ?_⟩
    exact (matches_cons (by decide)).mpr ⟨.inr rfl, rfl⟩
  have rejected : matchesPattern [star, 0x61, 0x62] [star, 0x62] = false := by decide
  rw [(exactly _ _).mpr matched] at rejected
  cases rejected

end Glob
end ScuffedRedis
