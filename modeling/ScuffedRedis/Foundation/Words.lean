import Mathlib.Data.List.DropRight

/-!
# Words

The words of a text are its maximal parts without blanks.
-/
namespace Foundation

variable {α : Type*} {blank : α → Bool} {sep : α}

/-- A word has a character and no blank. -/
def Word (blank : α → Bool) (chars : List α) : Prop :=
  chars ≠ [] ∧ ∀ c ∈ chars, blank c = false

def words (blank : α → Bool) (chars : List α) : List (List α) :=
  (chars.splitOnP blank).filter fun part => !part.isEmpty

@[simp] theorem words_nil : words blank [] = [] := rfl

theorem words_append_cons (first second : List α) (blanks : blank sep = true) :
    words blank (first ++ sep :: second) = words blank first ++ words blank second := by
  rw [words, List.splitOnP_append_cons _ _ blanks, List.filter_append]
  rfl

theorem words_cons_blank (blanks : blank sep = true) (chars : List α) :
    words blank (sep :: chars) = words blank chars :=
  words_append_cons [] chars blanks

theorem words_concat_blank (blanks : blank sep = true) (chars : List α) :
    words blank (chars ++ [sep]) = words blank chars := by
  rw [words_append_cons chars [] blanks, words_nil, List.append_nil]

theorem Word.words_eq {word : List α} (proper : Word blank word) :
    words blank word = [word] := by
  obtain ⟨nonempty, noBlank⟩ := proper
  rw [words, List.splitOnP_eq_singleton noBlank]
  simpa using nonempty

theorem Word.words_cons {word : List α} (proper : Word blank word) (blanks : blank sep = true)
    (rest : List α) : words blank (word ++ sep :: rest) = word :: words blank rest := by
  rw [words_append_cons word rest blanks, proper.words_eq]
  rfl

/-- Blanks at either end make no difference. -/
theorem words_trim (chars : List α) :
    words blank ((chars.dropWhile blank).rdropWhile blank) = words blank chars := by
  have right : ∀ chars : List α, words blank (chars.rdropWhile blank) = words blank chars := by
    intro chars
    induction chars using List.reverseRecOn with
    | nil => rfl
    | append_singleton chars c ih =>
      by_cases blanks : blank c = true
      · rw [List.rdropWhile_concat_pos _ _ _ blanks, ih, words_concat_blank blanks]
      · rw [List.rdropWhile_concat_neg _ _ _ blanks]
  rw [right]
  induction chars with
  | nil => rfl
  | cons c chars ih =>
    by_cases blanks : blank c = true
    · rw [List.dropWhile_cons_of_pos blanks, ih, words_cons_blank blanks]
    · rw [List.dropWhile_cons_of_neg blanks]

/-- The parts between blanks have none. -/
theorem word_of_mem_words {chars word : List α} (listed : word ∈ words blank chars) :
    Word blank word := by
  obtain ⟨part, nonempty⟩ := List.mem_filter.mp listed
  refine ⟨by simpa using nonempty, ?_⟩
  clear nonempty listed
  induction chars generalizing word with
  | nil =>
    rw [List.splitOnP_nil, List.mem_singleton] at part
    subst part
    exact List.forall_mem_nil _
  | cons c chars ih =>
    rw [List.splitOnP_cons_eq_if_modifyHead] at part
    split at part
    next =>
      rcases List.mem_cons.mp part with rfl | later
      · exact List.forall_mem_nil _
      · exact ih later
    next noBlank =>
      cases parts : chars.splitOnP blank with
      | nil => exact absurd parts (List.splitOnP_ne_nil _ _)
      | cons first others =>
        rw [parts, List.modifyHead_cons, List.mem_cons] at part
        rcases part with rfl | later
        · refine List.forall_mem_cons.mpr ⟨by simpa using noBlank, ih ?_⟩
          rw [parts]
          exact List.mem_cons_self
        · apply ih
          rw [parts]
          exact List.mem_cons_of_mem _ later

end Foundation
