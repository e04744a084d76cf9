import Mathlib

/-!
# Chains at home

An array of chains, in which every element belongs to the chain that `home` gives for it.
Replacing one chain and dealing all elements out to new chains are described up to the order
of the elements.
-/
namespace Foundation

variable {α : Type*}

/-- The elements outside one chain stay when that chain is replaced. -/
theorem exists_perm_set (chains : List (List α)) {i : Nat} (inRange : i < chains.length) :
    ∃ others, chains.flatten.Perm (chains.getD i [] ++ others) ∧
      ∀ chain, (chains.set i chain).flatten.Perm (chain ++ others) := by
  refine ⟨(chains.take i).flatten ++ (chains.drop (i + 1)).flatten, ?_, fun chain => ?_⟩
  · have split : chains = chains.take i ++ chains.getD i [] :: chains.drop (i + 1) := by
      rw [List.getD_eq_getElem _ _ inRange, ← List.drop_eq_getElem_cons inRange,
        List.take_append_drop]
    have flat := congrArg List.flatten split
    rw [List.flatten_append, List.flatten_cons] at flat
    rw [flat]
    exact List.perm_append_comm_assoc _ _ _
  · rw [List.set_eq_take_append_cons_drop, if_pos inRange, List.flatten_append, List.flatten_cons]
    exact List.perm_append_comm_assoc _ _ _

theorem getD_set (chains : List (List α)) (i j : Nat) (chain : List α) :
    (chains.set i chain).getD j [] =
      if i = j ∧ i < chains.length then chain else chains.getD j [] := by
  rw [List.getD_eq_getElem?_getD, List.getD_eq_getElem?_getD, List.getElem?_set]
  by_cases same : i = j
  · subst same
    by_cases inRange : i < chains.length
    · simp [inRange]
    · simp [inRange]
  · simp [same]

/-- Every element lies in the chain that is its home. -/
def AtHome (home : α → Nat) (chains : List (List α)) : Prop :=
  ∀ i, ∀ a ∈ chains.getD i [], home a = i

namespace AtHome

variable {home : α → Nat} {chains : List (List α)}

theorem replicate_nil (home : α → Nat) (n : Nat) : AtHome home (List.replicate n []) := by
  intro i a present
  rw [List.getD_eq_getElem?_getD, List.getElem?_replicate] at present
  split at present <;> simp at present

theorem set (atHome : AtHome home chains) {i : Nat} {chain : List α}
    (belongs : ∀ a ∈ chain, home a = i) : AtHome home (chains.set i chain) := by
  intro j a present
  rw [getD_set] at present
  split at present
  next replaced => rw [← replaced.1, belongs a present]
  next => exact atHome j a present

/-- An element is found by looking at its home only. -/
theorem mem_chain (atHome : AtHome home chains) {a : α} (present : a ∈ chains.flatten) :
    a ∈ chains.getD (home a) [] := by
  obtain ⟨chain, listed, inChain⟩ := List.mem_flatten.mp present
  obtain ⟨i, inRange, rfl⟩ := List.mem_iff_getElem.mp listed
  rw [← List.getD_eq_getElem chains [] inRange] at inChain
  rw [atHome i a inChain]
  exact inChain

end AtHome

/-- Puts an element at the head of its home chain. -/
def pushHome (home : α → Nat) (chains : List (List α)) (a : α) : List (List α) :=
  chains.set (home a) (a :: chains.getD (home a) [])

section Deal

variable {home : α → Nat}

@[simp] theorem length_pushHome (chains : List (List α)) (a : α) :
    (pushHome home chains a).length = chains.length := List.length_set

theorem AtHome.pushHome {chains : List (List α)} (atHome : AtHome home chains) (a : α) :
    AtHome home (pushHome home chains a) := by
  apply atHome.set
  intro b present
  rcases List.mem_cons.mp present with rfl | older
  · rfl
  · exact atHome _ b older

theorem flatten_pushHome_perm {chains : List (List α)} {a : α} (inRange : home a < chains.length) :
    (pushHome home chains a).flatten.Perm (a :: chains.flatten) := by
  obtain ⟨others, before, after⟩ := exists_perm_set chains inRange
  exact (after _).trans (before.symm.cons a)

/-- Dealing elements out one by one loses, adds and misplaces none. -/
theorem foldl_pushHome (elements : List α) (chains : List (List α))
    (inRange : ∀ a, home a < chains.length) (atHome : AtHome home chains) :
    (elements.foldl (pushHome home) chains).length = chains.length ∧
      AtHome home (elements.foldl (pushHome home) chains) ∧
      (elements.foldl (pushHome home) chains).flatten.Perm (elements ++ chains.flatten) := by
  induction elements generalizing chains with
  | nil => exact ⟨rfl, atHome, List.Perm.refl _⟩
  | cons a elements ih =>
    have pushed : ∀ b, home b < (pushHome home chains a).length := by
      intro b
      rw [length_pushHome]
      exact inRange b
    obtain ⟨length, dealt, reordered⟩ := ih (pushHome home chains a) pushed (atHome.pushHome a)
    refine ⟨length.trans (length_pushHome chains a), dealt, reordered.trans ?_⟩
    -- The element that was dealt first stands behind the others until it is moved up.
    have front : (elements ++ (pushHome home chains a).flatten).Perm
        (elements ++ a :: chains.flatten) :=
      (flatten_pushHome_perm (inRange a)).append_left elements
    exact front.trans List.perm_middle

end Deal
end Foundation
