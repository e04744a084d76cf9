import ScuffedRedis.Data.GlobMatching

/-!
# The wildcard matcher ends and stays in range

Going back moves both indices down. Every iteration lowers `potential`, which counts what the last
star can still skip before what is left of the pattern.
-/
namespace ScuffedRedis
namespace Glob

open Foundation

variable {str pattern : Bytes} {g : State}

/-! ### Reads -/

/-- One iteration that looks at every index it reads, or nothing where one is out of range. -/
def checkedStep (str pattern : Bytes) (g : State) : Option (Option State) :=
  if g.patIdx < pattern.length then
    match pattern[g.patIdx]?, str[g.strIdx]? with
    | some symbol, some first =>
      if symbol = first ∨ symbol = questionMark then some (some g.advance)
      else if symbol = star then some (some g.wildcard)
      else some g.backtrack
    | _, _ => none
  else some g.backtrack

/-- Inside the string no read is out of range. -/
theorem checkedStep_eq (left : g.strIdx < str.length) :
    checkedStep str pattern g = some (step str pattern g) := by
  obtain ⟨first, string, text⟩ := exists_drop left
  have here := getElem?_of_drop text
  -- Which symbol the pattern index is at decides which reads the branch makes.
  cases symbols : pattern.drop g.patIdx with
  | nil =>
    have outside : ¬ g.patIdx < pattern.length := not_lt.mpr (List.drop_eq_nil_iff.mp symbols)
    have stuck : step str pattern g = g.backtrack := step_stuck text (by simp [symbols])
    simp [checkedStep, outside, stuck]
  | cons symbol rest =>
    have within := lt_of_drop symbols
    have there := getElem?_of_drop symbols
    by_cases reads : symbol = first ∨ symbol = questionMark
    · have stepped := step_read text symbols reads
      simp only [checkedStep, within, if_true, there, here, reads, stepped]
    · by_cases special : symbol = star
      · subst special
        rw [not_or] at reads
        have stepped := step_star text symbols (Ne.symm reads.1)
        simp only [checkedStep, within, if_true, there, here, reads, or_self, if_false, stepped]
      · have stuck : step str pattern g = g.backtrack := by
          apply step_stuck text
          intro other after same
          obtain ⟨rfl, -⟩ := List.cons.inj (symbols.symm.trans same)
          exact ⟨special, not_or.mp reads⟩
        simp only [checkedStep, within, if_true, there, here, reads, special, if_false, stuck]

/-! ### Termination -/

theorem loop_exits {fuel : Nat} (kept : Inside str pattern g)
    (enough : potential str pattern g < fuel) : loop str pattern fuel g ≠ .outOfFuel := by
  induction fuel generalizing g with
  | zero => omega
  | succ fuel ih =>
    rcases Nat.lt_or_ge g.strIdx str.length with left | ended
    · cases stepped : step str pattern g with
      | none => simp [loop, left, stepped]
      | some next =>
        have moved := move_of_step left stepped
        have lower := moved.potential_lt kept
        rw [loop_next left stepped]
        exact ih (moved.inside kept) (by omega)
    · simp [loop_ended ended]

theorem loop_mono {fuel more : Nat} (done : loop str pattern fuel g ≠ .outOfFuel)
    (enough : fuel ≤ more) : loop str pattern more g = loop str pattern fuel g := by
  induction fuel generalizing g more with
  | zero => simp [loop] at done
  | succ fuel ih =>
    obtain ⟨more, rfl⟩ : ∃ less, more = less + 1 := ⟨more - 1, by omega⟩
    rcases Nat.lt_or_ge g.strIdx str.length with left | ended
    · cases stepped : step str pattern g with
      | none => simp [loop, left, stepped]
      | some next =>
        rw [loop_next left stepped] at done ⊢
        rw [loop_next left stepped]
        exact ih done (by omega)
    · rw [loop_ended ended, loop_ended ended]

/-- The pattern index with which the loop is left is in the pattern. -/
theorem done_le {fuel patIdx : Nat} (kept : Inside str pattern g)
    (done : loop str pattern fuel g = .done patIdx) : patIdx ≤ pattern.length := by
  induction fuel generalizing g with
  | zero => simp [loop] at done
  | succ fuel ih =>
    rcases Nat.lt_or_ge g.strIdx str.length with left | ended
    · cases stepped : step str pattern g with
      | none => simp [loop, left, stepped] at done
      | some next =>
        rw [loop_next left stepped] at done
        exact ih ((move_of_step left stepped).inside kept) done
    · rw [loop_ended ended] at done
      cases done
      exact kept.symbol

theorem skipStars_le {patIdx : Nat} (within : patIdx ≤ pattern.length) :
    skipStars pattern patIdx ≤ pattern.length := by
  have shorter := (List.takeWhile_prefix (l := pattern.drop patIdx) (· == star)).length_le
  rw [List.length_drop] at shorter
  rw [skipStars]
  omega

/-- The main loop ends, with the same exit however many more iterations it may take. Until then no
index leaves the string or the pattern and no read is out of range, and the last loop stays in the
pattern. -/
theorem loop_safe (str pattern : Bytes) :
    (∃ exit, exit ≠ .outOfFuel ∧
      ∀ count ≥ fuel str pattern, loop str pattern count start = exit) ∧
    (∀ g, Reached str pattern g →
      g.strIdx ≤ str.length ∧ g.patIdx ≤ pattern.length ∧
        (g.starIdx ≠ none → g.matchIdx ≤ g.strIdx) ∧
        (g.strIdx < str.length → checkedStep str pattern g = some (step str pattern g))) ∧
    ∀ count patIdx, loop str pattern count start = .done patIdx →
      patIdx ≤ skipStars pattern patIdx ∧ skipStars pattern patIdx ≤ pattern.length := by
  refine ⟨?_, ?_, ?_⟩
  · have exits : loop str pattern (fuel str pattern) start ≠ .outOfFuel :=
      loop_exits start_inside start_potential
    exact ⟨_, exits, fun count enough => loop_mono exits enough⟩
  · intro g reached
    have kept := reached.inside
    exact ⟨kept.string, kept.symbol, fun _ => kept.skipped, checkedStep_eq⟩
  · intro count patIdx done
    exact ⟨Nat.le_add_right _ _, skipStars_le (done_le start_inside done)⟩

end Glob
end ScuffedRedis
