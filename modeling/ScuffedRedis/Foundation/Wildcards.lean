import Mathlib

/-!
# Wildcard patterns

Patterns over any alphabet with two special symbols, one for any string and one for any symbol. The
statements about suffixes say where in a string the rest of a pattern matches.
-/
namespace Foundation.Wildcards

variable {α : Type*} [DecidableEq α] (star any : α)

/-- Whether a string matches a pattern. -/
def Matches : List α → List α → Prop
  | [], string => string = []
  | symbol :: pattern, string =>
    if symbol = star then ∃ skipped rest, string = skipped ++ rest ∧ Matches pattern rest
    else ∃ first rest, string = first :: rest ∧ (symbol = any ∨ symbol = first) ∧
      Matches pattern rest

variable {star any} {string pattern rest : List α} {symbol first : α}

@[simp] theorem matches_nil : Matches star any [] string ↔ string = [] := Iff.rfl

theorem matches_star :
    Matches star any (star :: pattern) string ↔
      ∃ skipped rest, string = skipped ++ rest ∧ Matches star any pattern rest := by
  simp [Matches]

/-- A symbol that is no star stands for one symbol of the string. -/
theorem matches_cons (plain : symbol ≠ star) :
    Matches star any (symbol :: pattern) (first :: rest) ↔
      (symbol = any ∨ symbol = first) ∧ Matches star any pattern rest := by
  simp [Matches, plain]

theorem not_matches_nil (plain : symbol ≠ star) : ¬ Matches star any (symbol :: pattern) [] := by
  simp [Matches, plain]

theorem matches_star_self (matched : Matches star any pattern string) :
    Matches star any (star :: pattern) string :=
  matches_star.mpr ⟨[], string, rfl, matched⟩

theorem matches_star_cons (matched : Matches star any (star :: pattern) string) (first : α) :
    Matches star any (star :: pattern) (first :: string) := by
  obtain ⟨skipped, rest, rfl, later⟩ := matches_star.mp matched
  exact matches_star.mpr ⟨first :: skipped, rest, rfl, later⟩

theorem matches_empty_iff : Matches star any pattern [] ↔ ∀ symbol ∈ pattern, symbol = star := by
  induction pattern with
  | nil => simp
  | cons symbol pattern ih =>
    by_cases special : symbol = star
    · subst special
      simp [matches_star, ih]
    · simp [special, not_matches_nil]

theorem matches_star_nil : Matches star any (star :: pattern) [] ↔ Matches star any pattern [] := by
  simp [matches_empty_iff]

/-- A star either ends here or skips one symbol more. -/
theorem matches_star_iff :
    Matches star any (star :: pattern) (first :: string) ↔
      Matches star any pattern (first :: string) ∨ Matches star any (star :: pattern) string := by
  constructor
  · intro matched
    obtain ⟨skipped, rest, split, later⟩ := matches_star.mp matched
    cases skipped with
    | nil => exact .inl (by rwa [split])
    | cons other skipped =>
      obtain ⟨rfl, rfl⟩ := List.cons.inj split
      exact .inr (matches_star.mpr ⟨skipped, rest, rfl, later⟩)
  · rintro (matched | matched)
    · exact matches_star_self matched
    · exact matches_star_cons matched first

/-- A star before any one symbol may read one symbol more. -/
theorem matches_star_any (matched : Matches star any (star :: pattern) string) (first : α) :
    Matches star any (star :: any :: pattern) (first :: string) := by
  obtain ⟨skipped, rest, rfl, later⟩ := matches_star.mp matched
  by_cases special : any = star
  · subst special
    exact matches_star.mpr ⟨first :: skipped, rest, rfl, matches_star_self later⟩
  · have split := List.dropLast_append_getLast (List.cons_ne_nil first skipped)
    refine matches_star.mpr ⟨(first :: skipped).dropLast,
      (first :: skipped).getLast (List.cons_ne_nil _ _) :: rest, ?_, ?_⟩
    · rw [List.append_cons, split, List.cons_append]
    · exact (matches_cons special).mpr ⟨.inl rfl, later⟩

/-- A symbol of the pattern that is equal to the symbol of the string may be read as itself, a star
as well. -/
theorem matches_read (reads : symbol = first ∨ symbol = any)
    (matched : Matches star any pattern rest) :
    Matches star any (symbol :: pattern) (first :: rest) := by
  by_cases special : symbol = star
  · subst special
    exact matches_star_cons (matches_star_self matched) first
  · exact (matches_cons special).mpr ⟨reads.symm, matched⟩

/-- Reading a front of the pattern symbol by symbol. -/
theorem matches_append {front : List α} {read : List α}
    (reads : List.Forall₂ (fun symbol first => symbol = first ∨ symbol = any) front read)
    (matched : Matches star any pattern rest) :
    Matches star any (front ++ pattern) (read ++ rest) := by
  induction reads with
  | nil => exact matched
  | cons same _ ih => exact matches_read same ih

/-- A symbol that stands for itself is in the string. -/
theorem mem_of_matches (matched : Matches star any pattern string) :
    ∀ symbol ∈ pattern, symbol = star ∨ symbol = any ∨ symbol ∈ string := by
  induction pattern generalizing string with
  | nil => simp
  | cons here pattern ih =>
    by_cases special : here = star
    · subst special
      obtain ⟨skipped, rest, rfl, later⟩ := matches_star.mp matched
      simp only [List.forall_mem_cons, true_or, true_and]
      intro symbol listed
      rcases ih later symbol listed with known | known | member
      · exact .inl known
      · exact .inr (.inl known)
      · exact .inr (.inr (List.mem_append_right skipped member))
    · cases string with
      | nil => exact absurd matched (not_matches_nil special)
      | cons first string =>
        obtain ⟨reads, later⟩ := (matches_cons special).mp matched
        rw [List.forall_mem_cons]
        refine ⟨.inr (reads.imp id fun same => List.mem_cons.mpr (.inl same)), ?_⟩
        intro symbol listed
        exact (ih later symbol listed).imp id (Or.imp id (List.mem_cons_of_mem first))

/-- A block without stars takes as many symbols as it has. -/
theorem matches_block {block : List α} (plain : star ∉ block)
    (matched : Matches star any (block ++ pattern) string) :
    ∃ taken rest, string = taken ++ rest ∧ taken.length = block.length ∧
      Matches star any pattern rest := by
  induction block generalizing string with
  | nil => exact ⟨[], string, rfl, rfl, matched⟩
  | cons symbol block ih =>
    rw [List.mem_cons, not_or] at plain
    cases string with
    | nil => exact absurd matched (not_matches_nil (Ne.symm plain.1))
    | cons first string =>
      obtain ⟨-, matched⟩ := (matches_cons (Ne.symm plain.1)).mp matched
      obtain ⟨taken, rest, rfl, length, matched⟩ := ih plain.2 matched
      exact ⟨first :: taken, rest, rfl, by simp [length], matched⟩

/-- A renaming of the symbols that keeps them apart. -/
theorem matches_map {β : Type*} [DecidableEq β] {rename : α → β} {symbols : Set α}
    (apart : Set.InjOn rename symbols) (stars : star ∈ symbols) (anys : any ∈ symbols)
    (pattern string : List α) (known : ∀ symbol ∈ pattern, symbol ∈ symbols)
    (spelt : ∀ first ∈ string, first ∈ symbols) :
    Matches (rename star) (rename any) (pattern.map rename) (string.map rename) ↔
      Matches star any pattern string := by
  induction pattern generalizing string with
  | nil => simp
  | cons symbol pattern ih =>
    have member := known symbol List.mem_cons_self
    have later := fun string => ih string fun other within => known other (.tail _ within)
    by_cases special : symbol = star
    · -- What the star skips in the renamed string is what it skips in the string, renamed.
      subst special
      simp only [List.map_cons, matches_star]
      constructor
      · rintro ⟨skipped, rest, split, matched⟩
        obtain ⟨taken, left, rfl, rfl, rfl⟩ := List.map_eq_append_iff.mp split
        have inside := fun first within => spelt first (List.mem_append_right taken within)
        exact ⟨taken, left, rfl, (later left inside).mp matched⟩
      · rintro ⟨taken, left, rfl, matched⟩
        have inside := fun first within => spelt first (List.mem_append_right taken within)
        exact ⟨taken.map rename, left.map rename, by simp, (later left inside).mpr matched⟩
    · have plain : rename symbol ≠ rename star := fun same => special (apart member stars same)
      cases string with
      | nil => simp [not_matches_nil special, not_matches_nil plain]
      | cons first string =>
        have here := spelt first List.mem_cons_self
        have inside := fun other within => spelt other (List.mem_cons_of_mem first within)
        rw [List.map_cons, List.map_cons, matches_cons plain, matches_cons special,
          later string inside, apart.eq_iff member anys, apart.eq_iff member here]

/-! ### Suffixes -/

section Suffixes

variable {index : Nat}

/-- A star skips to some later place. -/
theorem matches_star_drop (inside : index ≤ string.length) :
    Matches star any (star :: pattern) (string.drop index) ↔
      ∃ later, index ≤ later ∧ later ≤ string.length ∧
        Matches star any pattern (string.drop later) := by
  rw [matches_star]
  constructor
  · rintro ⟨skipped, rest, split, matched⟩
    have length := congrArg List.length split
    simp only [List.length_drop, List.length_append] at length
    have dropped : string.drop (index + skipped.length) = rest := by
      rw [← List.drop_drop, split, List.drop_left]
    exact ⟨index + skipped.length, by omega, by omega, by rwa [dropped]⟩
  · rintro ⟨later, after, -, matched⟩
    refine ⟨(string.drop index).take (later - index), string.drop later, ?_, matched⟩
    have dropped : string.drop later = (string.drop index).drop (later - index) := by
      rw [List.drop_drop, Nat.add_sub_cancel' after]
    rw [dropped, List.take_append_drop]

/-- A block without stars leads to the place that is its length further. -/
theorem matches_block_drop {block : List α} (plain : star ∉ block) (inside : index ≤ string.length)
    (matched : Matches star any (block ++ pattern) (string.drop index)) :
    index + block.length ≤ string.length ∧
      Matches star any pattern (string.drop (index + block.length)) := by
  obtain ⟨taken, rest, split, length, matched⟩ := matches_block plain matched
  have whole := congrArg List.length split
  simp only [List.length_drop, List.length_append] at whole
  refine ⟨by omega, ?_⟩
  rw [← List.drop_drop, split, ← length, List.drop_left]
  exact matched

end Suffixes

end Foundation.Wildcards
