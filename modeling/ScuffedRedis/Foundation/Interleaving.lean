import ScuffedRedis.Foundation.Simulation

/-!
# Interleavings and serial orders

The steps of several owners are taken in some order. If the owners can be ordered so that no step
of a later one comes before a step of an earlier one with which it does not commute, each owner
gets the same answers as if the owners took all their steps one after another.
-/
namespace Foundation

variable {κ σ ι ο : Type*}

/-- In either order the two inputs get the same answers and lead to the same state. -/
def Commutes (step : σ → ι → ο × σ) (x y : ι) : Prop :=
  ∀ s, (step (step s y).2 x).1 = (step s x).1 ∧ (step (step s x).2 y).1 = (step s y).1 ∧
    (step (step s x).2 y).2 = (step (step s y).2 x).2

/-- A step of an owner; the answer goes to it. -/
def owned (step : σ → ι → ο × σ) (s : σ) (x : κ × ι) : (κ × ο) × σ :=
  ((x.1, (step s x.2).1), (step s x.2).2)

section Answers

variable [DecidableEq κ]

/-- The answers that an owner gets. -/
def answersTo (owner : κ) (answers : List (κ × ο)) : List ο :=
  (answers.filter (·.1 = owner)).map Prod.snd

theorem answersTo_cons (owner : κ) (answer : κ × ο) (answers : List (κ × ο)) :
    answersTo owner (answer :: answers) =
      if answer.1 = owner then answer.2 :: answersTo owner answers
        else answersTo owner answers := by
  rw [answersTo, List.filter_cons]
  by_cases own : answer.1 = owner
  · simp [own, answersTo]
  · simp [own, answersTo]

theorem answersTo_append (owner : κ) (first second : List (κ × ο)) :
    answersTo owner (first ++ second) = answersTo owner first ++ answersTo owner second := by
  rw [answersTo, List.filter_append, List.map_append]
  rfl

/-- Who takes no step gets no answer. -/
theorem answersTo_absent {step : σ → ι → ο × σ} {owner : κ} {T : List (κ × ι)}
    (absent : owner ∉ T.map Prod.fst) (s : σ) :
    answersTo owner (runInputs (owned step) s T).1 = [] := by
  induction T generalizing s with
  | nil => rfl
  | cons x T ih =>
    rw [List.map_cons, List.mem_cons, not_or] at absent
    rw [runInputs_cons, answersTo_cons, ih absent.2]
    exact if_neg (Ne.symm absent.1)

/-- The steps of one owner alone. -/
theorem runInputs_alone (step : σ → ι → ο × σ) (owner : κ) (s : σ) (inputs : List ι) :
    (runInputs (owned step) s (inputs.map fun x => (owner, x))).2 = (runInputs step s inputs).2 ∧
      answersTo owner (runInputs (owned step) s (inputs.map fun x => (owner, x))).1 =
        (runInputs step s inputs).1 := by
  induction inputs generalizing s with
  | nil => exact ⟨rfl, rfl⟩
  | cons x inputs ih =>
    obtain ⟨state, answers⟩ := ih (step s x).2
    rw [List.map_cons, runInputs_cons, runInputs_cons, answersTo_cons]
    refine ⟨state, ?_⟩
    simp only [owned, if_true, answers]

/-- From this state, the two lists of steps lead to the same state and give each owner the same
answers. -/
structure SameRun (step : σ → ι → ο × σ) (s : σ) (T T' : List (κ × ι)) : Prop where
  state : (runInputs (owned step) s T).2 = (runInputs (owned step) s T').2
  answers : ∀ owner, answersTo owner (runInputs (owned step) s T).1 =
    answersTo owner (runInputs (owned step) s T').1

namespace SameRun

variable {step : σ → ι → ο × σ} {s : σ} {x y : κ × ι} {T T' T'' F G : List (κ × ι)}

theorem refl (step : σ → ι → ο × σ) (s : σ) (T : List (κ × ι)) : SameRun step s T T :=
  ⟨rfl, fun _ => rfl⟩

theorem trans (first : SameRun step s T T') (second : SameRun step s T' T'') :
    SameRun step s T T'' :=
  ⟨first.state.trans second.state, fun owner =>
    (first.answers owner).trans (second.answers owner)⟩

theorem cons (x : κ × ι) (rest : SameRun step (step s x.2).2 T T') :
    SameRun step s (x :: T) (x :: T') := by
  constructor
  · exact rest.state
  · intro owner
    rw [runInputs_cons, runInputs_cons, answersTo_cons, answersTo_cons]
    exact congrArg (fun answers => if x.1 = owner then _ :: answers else answers)
      (rest.answers owner)

theorem append (P : List (κ × ι)) (rest : ∀ s, SameRun step s T T') (s : σ) :
    SameRun step s (P ++ T) (P ++ T') := by
  induction P generalizing s with
  | nil => exact rest s
  | cons x P ih => exact cons x (ih _)

/-- Neighbours of different owners that commute change places. -/
theorem swap (other : x.1 ≠ y.1) (commute : Commutes step x.2 y.2) (T : List (κ × ι)) :
    SameRun step s (x :: y :: T) (y :: x :: T) := by
  obtain ⟨first, second, state⟩ := commute s
  have next : (owned step (owned step s x).2 y).2 = (owned step (owned step s y).2 x).2 := state
  constructor
  · rw [runInputs_cons, runInputs_cons, runInputs_cons, runInputs_cons, next]
  · intro owner
    simp only [runInputs_cons, answersTo_cons, next]
    by_cases own : x.1 = owner
    · -- The owner of one of the two is not the owner of the other.
      have notOwn : y.1 ≠ owner := fun same => other (own.trans same.symm)
      simp only [owned, own, notOwn, if_true, if_false, first]
    · simp only [owned, own, if_false, second]

/-- A step moves behind steps of others with which it commutes. -/
theorem pass (others : ∀ y ∈ F, x.1 ≠ y.1 ∧ Commutes step x.2 y.2) (G : List (κ × ι)) :
    SameRun step s (x :: F ++ G) (F ++ x :: G) := by
  induction F generalizing s with
  | nil => exact refl step s _
  | cons y F ih =>
    rw [List.forall_mem_cons] at others
    exact (swap others.1.1 others.1.2 (F ++ G)).trans (cons y (ih others.2))

/-- The steps of one owner move to the front, if every step before them commutes with them. -/
theorem gather {owner : κ}
    (commute : T.Pairwise fun x y => x.1 ≠ owner → y.1 = owner → Commutes step x.2 y.2) :
    SameRun step s T (T.filter (·.1 = owner) ++ T.filter (·.1 ≠ owner)) := by
  induction T generalizing s with
  | nil => exact refl step s _
  | cons x T ih =>
    rw [List.pairwise_cons] at commute
    have rest := cons (s := s) x (ih commute.2)
    by_cases own : x.1 = owner
    · simpa [own] using rest
    · -- A step of another owner goes behind all steps of this one.
      have moved : SameRun step s (x :: T.filter (·.1 = owner) ++ T.filter (·.1 ≠ owner))
          (T.filter (·.1 = owner) ++ x :: T.filter (·.1 ≠ owner)) := by
        refine pass (fun y listed => ?_) _
        have named : y.1 = owner := by simpa using (List.mem_filter.mp listed).2
        refine ⟨fun same => own (same.trans named), ?_⟩
        exact commute.1 y (List.mem_filter.mp listed).1 own named
      have serial := rest.trans moved
      simpa [own] using serial

end SameRun

/-- The steps of the owners one after another. -/
def serial (order : List κ) (T : List (κ × ι)) : List (κ × ι) :=
  order.flatMap fun owner => T.filter (·.1 = owner)

/-- What is left of the steps does not matter for owners who took none of them. -/
theorem serial_filter {order : List κ} {owner : κ} (absent : owner ∉ order) (T : List (κ × ι)) :
    serial order (T.filter (·.1 ≠ owner)) = serial order T := by
  induction order with
  | nil => rfl
  | cons other order ih =>
    rw [List.mem_cons, not_or] at absent
    rw [serial, List.flatMap_cons, serial, List.flatMap_cons]
    refine congrArg₂ (· ++ ·) ?_ (ih absent.2)
    rw [List.filter_filter]
    refine List.filter_congr fun x _ => ?_
    by_cases own : x.1 = other
    · simp [own, Ne.symm absent.1]
    · simp [own]

/-- **Serialisation.** Steps taken in any order run as those of the owners one after another, if
every step that comes before a step of an earlier owner commutes with it. -/
theorem sameRun_serial {step : σ → ι → ο × σ} {order : List κ} {T : List (κ × ι)}
    (distinct : order.Nodup) (complete : ∀ x ∈ T, x.1 ∈ order)
    (agrees : order.Pairwise fun a b =>
      T.Pairwise fun x y => x.1 = b → y.1 = a → Commutes step x.2 y.2) (s : σ) :
    SameRun step s T (serial order T) := by
  induction order generalizing T s with
  | nil =>
    cases T with
    | nil => exact .refl step s _
    | cons x T => exact absurd (complete x List.mem_cons_self) List.not_mem_nil
  | cons owner order ih =>
    rw [List.nodup_cons] at distinct
    rw [List.pairwise_cons] at agrees
    -- All others come later in the order, so their steps commute with the later ones of the owner.
    have commute : T.Pairwise fun x y => x.1 ≠ owner → y.1 = owner → Commutes step x.2 y.2 := by
      rw [List.pairwise_iff_forall_sublist]
      intro x y early other own
      have listed : x ∈ T := early.subset List.mem_cons_self
      have later : x.1 ∈ order :=
        (List.mem_cons.mp (complete x listed)).resolve_left other
      exact List.pairwise_iff_forall_sublist.mp (agrees.1 x.1 later) early rfl own
    refine (SameRun.gather commute).trans ?_
    rw [serial, List.flatMap_cons]
    have others : ∀ x ∈ T.filter (·.1 ≠ owner), x.1 ∈ order := by
      intro x listed
      obtain ⟨listed, other⟩ := List.mem_filter.mp listed
      exact (List.mem_cons.mp (complete x listed)).resolve_left (by simpa using other)
    have kept : order.Pairwise fun a b => (T.filter (·.1 ≠ owner)).Pairwise fun x y =>
        x.1 = b → y.1 = a → Commutes step x.2 y.2 :=
      agrees.2.imp fun pair => pair.sublist List.filter_sublist
    rw [← serial, ← serial_filter distinct.1 T]
    exact SameRun.append _ (ih distinct.2 others kept) s

end Answers

/-! ### Orders without a cycle -/

/-- All steps of one owner come before those of another. -/
def Precedes (T : List (κ × ι)) (a b : κ) : Prop :=
  a ∈ T.map Prod.fst ∧ b ∈ T.map Prod.fst ∧ T.Pairwise fun x y => x.1 = b → y.1 ≠ a

/-- Some step of one owner comes before a step of another that depends on it. -/
def Conflicts (depends : ι → ι → Prop) (T : List (κ × ι)) (a b : κ) : Prop :=
  ¬ T.Pairwise fun x y => x.1 = a → y.1 = b → ¬ depends x.2 y.2

/-- One of two owners has to come before the other. -/
def Before (depends : ι → ι → Prop) (T : List (κ × ι)) (a b : κ) : Prop :=
  a ≠ b ∧ (Precedes T a b ∨ Conflicts depends T a b)

/-- Owners of one step each come in the order of their steps. -/
theorem acyclic_of_nodup [DecidableEq κ] {depends : ι → ι → Prop} {T : List (κ × ι)}
    (single : (T.map Prod.fst).Nodup) (a : κ) :
    ¬ Relation.TransGen (Before depends T) a a := by
  -- An owner has the place of its only step, and places go up from one owner to the next.
  have place {i : Nat} (inside : i < T.length) : (T.map Prod.fst).idxOf T[i].1 = i := by
    have mapped : i < (T.map Prod.fst).length := by rwa [List.length_map]
    have named : (T.map Prod.fst)[i] = T[i].1 := List.getElem_map _
    rw [← named]
    exact single.idxOf_getElem i mapped
  have rises : ∀ a b, Before depends T a b →
      (T.map Prod.fst).idxOf a < (T.map Prod.fst).idxOf b := by
    rintro a b ⟨different, ⟨first, second, precedes⟩ | conflicts⟩
    · obtain ⟨x, listed, rfl⟩ := List.mem_map.mp first
      obtain ⟨i, inside, rfl⟩ := List.getElem_of_mem listed
      obtain ⟨y, listed', rfl⟩ := List.mem_map.mp second
      obtain ⟨j, inside', rfl⟩ := List.getElem_of_mem listed'
      rw [place inside, place inside']
      rcases Nat.lt_trichotomy i j with before | rfl | after
      · exact before
      · exact absurd rfl different
      · exact absurd rfl (List.pairwise_iff_getElem.mp precedes j i inside' inside after rfl)
    · rw [Conflicts, List.pairwise_iff_getElem] at conflicts
      push Not at conflicts
      obtain ⟨i, j, inside, inside', before, rfl, rfl, -⟩ := conflicts
      rwa [place inside, place inside']
  intro cycle
  have climbs : ∀ {a b}, Relation.TransGen (Before depends T) a b →
      (T.map Prod.fst).idxOf a < (T.map Prod.fst).idxOf b := by
    intro a b path
    induction path with
    | single step => exact rises _ _ step
    | tail _ step ih => exact ih.trans (rises _ _ step)
  exact lt_irrefl _ (climbs cycle)

/-- A relation without a cycle orders every list of its elements. -/
theorem exists_order {R : κ → κ → Prop} (acyclic : ∀ a, ¬ Relation.TransGen R a a)
    (members : List κ) :
    ∃ order : List κ, order.Nodup ∧ (∀ a, a ∈ order ↔ a ∈ members) ∧
      order.Pairwise fun a b => ¬ R b a := by
  classical
  have partialOrder : IsPartialOrder κ (Relation.ReflTransGen R) :=
    { refl := fun _ => .refl
      trans := fun _ _ _ => .trans
      antisymm := fun a b there back => by
        rcases Relation.reflTransGen_iff_eq_or_transGen.mp there with same | there
        · exact same.symm
        · exact absurd (there.trans_left back) (acyclic a) }
  -- The members are sorted by a linear order that extends the relation.
  obtain ⟨s, linear, extends'⟩ := extend_partialOrder (Relation.ReflTransGen R)
  have sorted := List.pairwise_insertionSort s members.dedup
  have perm := List.perm_insertionSort s members.dedup
  have distinct : (List.insertionSort s members.dedup).Nodup :=
    perm.nodup_iff.mpr members.nodup_dedup
  refine ⟨List.insertionSort s members.dedup, distinct, fun a => ?_, ?_⟩
  · rw [perm.mem_iff, List.mem_dedup]
  · refine (sorted.and distinct).imp ?_
    rintro a b ⟨below, different⟩ back
    exact different (linear.antisymm a b below (extends' b a (.single back)))

/-- If no owners have to come before one another in a cycle, the steps run as those of the owners
one after another, in an order that keeps to the times of their steps. -/
theorem exists_serial [DecidableEq κ] {step : σ → ι → ο × σ} {depends : ι → ι → Prop}
    {T : List (κ × ι)} (independent : ∀ x y, ¬ depends x y → Commutes step x y)
    (acyclic : ∀ a, ¬ Relation.TransGen (Before depends T) a a) :
    ∃ order : List κ, order.Nodup ∧ (∀ a, a ∈ order ↔ a ∈ T.map Prod.fst) ∧
      (order.Pairwise fun a b => ¬ Precedes T b a) ∧ ∀ s, SameRun step s T (serial order T) := by
  obtain ⟨order, distinct, complete, sorted⟩ := exists_order acyclic (T.map Prod.fst)
  have apart := sorted.and distinct
  refine ⟨order, distinct, complete, ?_, fun s => sameRun_serial distinct ?_ ?_ s⟩
  · refine apart.imp ?_
    rintro a b ⟨notBefore, different⟩ precedes
    exact notBefore ⟨Ne.symm different, .inl precedes⟩
  · exact fun x listed => (complete x.1).mpr (List.mem_map_of_mem listed)
  · refine apart.imp ?_
    rintro a b ⟨notBefore, different⟩
    have free : T.Pairwise fun x y => x.1 = b → y.1 = a → ¬ depends x.2 y.2 := by
      by_contra conflicts
      exact notBefore ⟨Ne.symm different, .inr conflicts⟩
    exact free.imp fun apart first second => independent _ _ (apart first second)

end Foundation
