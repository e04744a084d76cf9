import Mathlib

/-!
# Prefix codes

Words none of which goes on with another. A list is split into words and a rest that no word
starts in one way only, so it does not matter in which portions it is read.
-/
namespace Foundation

variable {α : Type*}

structure PrefixCode (word : List α → Prop) : Prop where
  nonempty : ∀ {w}, word w → w ≠ []
  free : ∀ {w w' rest rest'}, word w → word w' → w ++ rest = w' ++ rest' → w = w'

/-- A whole word stands at the front. -/
def Ahead (word : List α → Prop) (buffer : List α) : Prop :=
  ∃ w rest, word w ∧ buffer = w ++ rest

namespace PrefixCode

variable {word : List α → Prop} (code : PrefixCode word)

include code

/-- A list that starts with words and a rest, and that is made of words, has the same words at its
front. -/
theorem split_prefix {ws all : List (List α)} {rest later : List α} (each : ∀ w ∈ ws, word w)
    (each' : ∀ w ∈ all, word w) (same : ws.flatten ++ (rest ++ later) = all.flatten) :
    ∃ remaining, all = ws ++ remaining ∧ rest ++ later = remaining.flatten := by
  induction ws generalizing all with
  | nil => exact ⟨all, rfl, same⟩
  | cons w ws ih =>
    rw [List.forall_mem_cons] at each
    cases all with
    | nil =>
      rw [List.flatten_cons, List.append_assoc, List.flatten_nil, List.append_eq_nil_iff] at same
      exact absurd same.1 (code.nonempty each.1)
    | cons w' all =>
      rw [List.forall_mem_cons] at each'
      rw [List.flatten_cons, List.flatten_cons, List.append_assoc] at same
      -- The word at the front is the same on both sides.
      obtain rfl := code.free each.1 each'.1 same
      obtain ⟨remaining, split, rest⟩ := ih each.2 each'.2 (List.append_cancel_left same)
      exact ⟨remaining, by rw [split, List.cons_append], rest⟩

/-- There is only one way to split off words until none stands at the front. -/
theorem split_unique {ws ws' : List (List α)} {rest rest' : List α} (each : ∀ w ∈ ws, word w)
    (each' : ∀ w ∈ ws', word w) (stop : ¬ Ahead word rest) (stop' : ¬ Ahead word rest')
    (same : ws.flatten ++ rest = ws'.flatten ++ rest') : ws = ws' ∧ rest = rest' := by
  induction ws generalizing ws' with
  | nil =>
    cases ws' with
    | nil => exact ⟨rfl, same⟩
    | cons w' ws' =>
      rw [List.flatten_cons, List.append_assoc] at same
      -- A word of the other side would stand at the front of the rest.
      exact absurd ⟨w', _, each' w' List.mem_cons_self, same⟩ stop
  | cons w ws ih =>
    rw [List.forall_mem_cons] at each
    rw [List.flatten_cons, List.append_assoc] at same
    cases ws' with
    | nil => exact absurd ⟨w, _, each.1, same.symm⟩ stop'
    | cons w' ws' =>
      rw [List.forall_mem_cons] at each'
      rw [List.flatten_cons, List.append_assoc] at same
      obtain rfl := code.free each.1 each'.1 same
      obtain ⟨rfl, rfl⟩ := ih each.2 each'.2 (List.append_cancel_left same)
      exact ⟨rfl, rfl⟩

end PrefixCode
end Foundation
