import ScuffedRedis.Data.SortedSetLaws
import ScuffedRedis.Foundation.Simulation

/-!
# Sorted sets with NaN

An entry whose score is NaN is equivalent to every entry, so the tree has room for it only when
it is alone. The two containers are in step throughout a run exactly when NaN never meets
another member.
-/
namespace ScuffedRedis

open Foundation

namespace SortedSet

/-- The tree holds one entry for each binding of the scores and no other, and the counter counts
the members of both containers. -/
structure InStep (set : SortedSet) : Prop where
  entries : Lists set.tree.inorder set.scores
  scores : set.size = set.scores.keys.card
  tree : set.size = set.tree.inorder.length

/-- The set with one member. -/
def lone (member : Bytes) (score : Binary64) : SortedSet where
  tree := ⟨.node ⟨score, member⟩ true 1 .nullptr .nullptr, 1⟩
  scores := (∅ : Finmap fun _ : Bytes => Binary64).insert member score
  size := 1

/-- No score is NaN, or the only one is. -/
def Coherent (set : SortedSet) : Prop :=
  (∃ tree, Coupled set tree) ∨ ∃ member score, score.isNaN = true ∧ set = lone member score

/-- The call brings NaN together with no other member: nothing else is in the set, or neither the
new score nor that of another member is NaN. -/
def Harmless (set : SortedSet) : SetOp → Prop
  | .zadd member score =>
    (∀ other ∈ set.scores, other = member) ∨
      (score.isNaN = false ∧
        ∀ other known, set.scores.lookup other = some known → other = member ∨ known.isNaN = false)
  | _ => True

theorem Coupled.inStep {set : SortedSet} {tree : AVLTree OrderedEntry Bool}
    (coupled : Coupled set tree) : set.InStep := by
  have length : set.size = set.tree.inorder.length := by
    rw [coupled.inorder_eq, List.length_map, coupled.size]
  exact ⟨coupled.lists, length.trans coupled.lists.card_keys.symm, length⟩

theorem lone_inStep (member : Bytes) (score : Binary64) : (lone member score).InStep := by
  have lists : Lists (lone member score).tree.inorder (lone member score).scores :=
    Represents.nil.insert_new ((⟨score, member⟩, true) : SortedSetEntry × Bool) (by simp)
  exact ⟨lists, lists.card_keys.symm, rfl⟩

theorem Coherent.inStep {set : SortedSet} (coherent : set.Coherent) : set.InStep := by
  rcases coherent with ⟨tree, coupled⟩ | ⟨member, score, -, rfl⟩
  · exact coupled.inStep
  · exact lone_inStep member score

/-! ### One member -/

/-- An entry with NaN is equivalent to every entry. -/
theorem less_unordered {entry other : SortedSetEntry}
    (unordered : entry.score.isNaN = true ∨ other.score.isNaN = true) :
    entry.less other = false := by
  rw [SortedSetEntry.less, if_pos (Binary64.differs_eq_true unordered),
    Binary64.less_eq_false unordered]

theorem coherent_lone (member : Bytes) (score : Binary64) : (lone member score).Coherent := by
  cases ordered : score.isNaN with
  | true => exact .inr ⟨member, score, ordered, rfl⟩
  | false =>
    obtain ⟨later, tree, call, coupled, -⟩ := zadd_spec Coupled.empty member ordered
    obtain rfl : lone member score = later := congrArg Prod.snd (Option.some.inj call)
    exact .inl ⟨tree, coupled⟩

section Lone

variable {member : Bytes} {known : Binary64} (unordered : known.isNaN = true)

include unordered

theorem remove_lone :
    (lone member known).tree.remove SortedSetEntry.less ⟨known, member⟩ = some (true, .empty) := by
  have same : ¬ SortedSetEntry.less ⟨known, member⟩ ⟨known, member⟩ = true := by
    rw [less_unordered (.inl unordered)]
    exact Bool.false_ne_true
  rw [AVLTree.remove, lone, AVLNode.removeNode, if_neg same, if_neg same]
  rfl

/-- The only member may get any score. -/
theorem zadd_lone (score : Binary64) :
    (lone member known).zadd member score = some (0, lone member score) := by
  have bound : (lone member known).scores.lookup member = some known := Finmap.lookup_insert _
  have scores : (lone member known).scores.insert member score = (lone member score).scores :=
    Finmap.insert_insert _
  rw [zadd, bound]
  simp only [remove_lone unordered, bind, Option.bind_some, scores]
  rfl

theorem zrem_lone : (lone member known).zrem member = some (1, empty) := by
  have bound : (lone member known).scores.lookup member = some known := Finmap.lookup_insert _
  have scores : (lone member known).scores.erase member = ∅ := by
    apply Finmap.ext_lookup
    intro other
    rw [lookup_erase_eq, lone, lookup_insert_eq]
    split <;> rfl
  rw [zrem, bound]
  simp only [remove_lone unordered, bind, Option.bind_some, scores]
  rfl

end Lone

theorem lookup_lone {member other : Bytes} (known : Binary64) (different : other ≠ member) :
    (lone member known).scores.lookup other = none := by
  rw [lone, Finmap.lookup_insert_of_ne _ different, Finmap.lookup_empty]

section Only

variable {scores : Finmap fun _ : Bytes => Binary64} {member : Bytes}

theorem erase_only (only : ∀ other ∈ scores, other = member) : scores.erase member = ∅ := by
  apply Finmap.ext_lookup
  intro other
  rw [lookup_erase_eq, Finmap.lookup_empty]
  split
  next => rfl
  next different =>
    exact Finmap.lookup_eq_none.mpr fun present => different (only other present).symm

theorem insert_only (only : ∀ other ∈ scores, other = member) (score : Binary64) :
    scores.insert member score = (∅ : Finmap fun _ : Bytes => Binary64).insert member score := by
  rw [← insert_erase_self, erase_only only]

/-- A tree that lists no member is empty. -/
theorem eq_empty {tree : AVLTree OrderedEntry Bool} (valid : tree.Valid OrderedEntry.less)
    (listed : ListsOrdered tree.root.entries ∅) : tree = .empty := by
  obtain ⟨root, size⟩ := tree
  cases root with
  | nullptr =>
    have counted : size = 0 := valid.size
    rw [counted]
    rfl
  | node key value height left right =>
    have present : (key, value) ∈ (AVLNode.node key value height left right).entries := by
      simp [AVLNode.entries]
    have bound := listed.lookup_key present
    rw [Finmap.lookup_empty] at bound
    cases bound

end Only

/-- A set with no other member becomes the set with one member. -/
theorem Coupled.zadd_only {set : SortedSet} {tree : AVLTree OrderedEntry Bool}
    (coupled : Coupled set tree) {member : Bytes} (only : ∀ other ∈ set.scores, other = member)
    (score : Binary64) :
    ∃ answer, set.zadd member score = some (answer, lone member score) := by
  rw [zadd, coupled.renamed]
  cases known : set.scores.lookup member with
  | none =>
    have listed := coupled.listed
    rw [← erase_of_lookup_eq_none known, erase_only only] at listed
    obtain rfl := eq_empty coupled.valid listed
    refine ⟨1, ?_⟩
    simp only [insert_only only, coupled.size]
    rfl
  | some oldScore =>
    obtain ⟨without, removal, valid, listed, size⟩ :=
      remove_listed coupled.valid coupled.listed known
    rw [erase_only only] at listed
    obtain rfl := eq_empty valid listed
    refine ⟨0, ?_⟩
    simp only [removal, bind, Option.bind_some, insert_only only, coupled.size, ← size]
    rfl

/-! ### NaN beside another member -/

/-- A new key that the root compares with in neither direction is taken for the key of the root. -/
theorem insert_unordered {tree : AVLTree SortedSetEntry Bool} {entry top : SortedSetEntry}
    {value : Bool} {height : Int} {left right : AVLNode SortedSetEntry Bool}
    (root : tree.root = .node top value height left right) (notBelow : entry.less top = false)
    (notAbove : top.less entry = false) :
    tree.insert SortedSetEntry.less entry true =
      some (false, ⟨.node top true height left right, tree.size⟩) := by
  rw [AVLTree.insert, root, AVLNode.insertNode, if_neg (Bool.eq_false_iff.mp notBelow),
    if_neg (Bool.eq_false_iff.mp notAbove)]
  rfl

/-- A member with a score but without an entry. -/
theorem not_inStep_of_missing {set : SortedSet} {member : Bytes} {score : Binary64}
    (bound : set.scores.lookup member = some score)
    (missing : ∀ entry ∈ set.tree.inorder, entry.1.member ≠ member) : ¬ set.InStep := by
  intro inStep
  obtain ⟨entry, present, named, -⟩ := (inStep.entries.lookup member score).mp bound
  exact missing entry present named

/-- The entry of a NaN score finds no place in a tree that is not empty. -/
theorem insert_nan {tree : AVLTree OrderedEntry Bool} {scores : Finmap fun _ : Bytes => Binary64}
    (listed : ListsOrdered tree.root.entries scores) {member other : Bytes}
    (unlisted : scores.lookup member = none) (present : other ∈ scores) {score : Binary64}
    (unordered : score.isNaN = true) :
    ∃ later, (tree.rename Subtype.val).insert SortedSetEntry.less ⟨score, member⟩ true =
        some (false, later) ∧
      ∀ entry ∈ later.inorder, entry.1.member ≠ member := by
  obtain ⟨root, size⟩ := tree
  cases root with
  | nullptr =>
    obtain ⟨entry, absent, -⟩ := (listed.mem_iff other).mp present
    cases absent
  | node top value height left right =>
    have call : ((AVLTree.mk (.node top value height left right) size).rename Subtype.val).insert
        SortedSetEntry.less ⟨score, member⟩ true =
          some (false, (AVLTree.mk (.node top true height left right) size).rename Subtype.val) :=
      insert_unordered rfl (less_unordered (.inl unordered)) (less_unordered (.inr unordered))
    refine ⟨_, call, fun entry inside same => ?_⟩
    rw [AVLTree.inorder_rename, AVLTree.inorder_eq] at inside
    obtain ⟨stored, kept, rfl⟩ := List.mem_map.mp inside
    -- The keys are those that the tree had before.
    have old : ∃ flag, (stored.1, flag) ∈ (AVLNode.node top value height left right).entries := by
      rcases List.mem_append.mp kept with before | here
      · exact ⟨stored.2, List.mem_append_left _ before⟩
      · rcases List.mem_cons.mp here with rfl | after
        · exact ⟨value, List.mem_append_right _ List.mem_cons_self⟩
        · exact ⟨stored.2, List.mem_append_right _ (List.mem_cons_of_mem _ after)⟩
    obtain ⟨flag, old⟩ := old
    have bound := listed.lookup_key old
    change scores.lookup stored.1.1.member = _ at bound
    change stored.1.1.member = member at same
    rw [same, unlisted] at bound
    cases bound

section Harmful

variable {set : SortedSet} {member other : Bytes} (present : other ∈ set.scores)
  (different : other ≠ member)

include present different

theorem Coupled.zadd_nan {tree : AVLTree OrderedEntry Bool} (coupled : Coupled set tree)
    {score : Binary64} (unordered : score.isNaN = true) {later : SortedSet}
    (stepped : set.next (.zadd member score) = some later) : ¬ later.InStep := by
  rw [next, zadd, coupled.renamed] at stepped
  cases known : set.scores.lookup member with
  | none =>
    obtain ⟨after, call, missing⟩ := insert_nan coupled.listed known present unordered
    simp only [known, call, bind, Option.bind_some, pure, Option.map_some, Option.some.injEq]
      at stepped
    obtain rfl := stepped
    exact not_inStep_of_missing (Finmap.lookup_insert _) missing
  | some oldScore =>
    obtain ⟨without, removal, valid, listed, -⟩ :=
      remove_listed coupled.valid coupled.listed known
    have still : other ∈ set.scores.erase member := Finmap.mem_erase.mpr ⟨different, present⟩
    obtain ⟨after, call, missing⟩ :=
      insert_nan listed (Finmap.lookup_erase _ _) still unordered
    -- The old entry goes, and the new one finds no place among the others.
    simp only [known, removal, call, bind, Option.bind_some, pure, Option.map_some,
      Option.some.injEq] at stepped
    obtain rfl := stepped
    exact not_inStep_of_missing (Finmap.lookup_insert _) missing

end Harmful

theorem lone_zadd_other {member other : Bytes} {known : Binary64} (unordered : known.isNaN = true)
    (different : other ≠ member) (score : Binary64) {later : SortedSet}
    (stepped : (lone member known).next (.zadd other score) = some later) : ¬ later.InStep := by
  have call : (lone member known).tree.insert SortedSetEntry.less ⟨score, other⟩ true =
      some (false, (lone member known).tree) :=
    insert_unordered rfl (less_unordered (.inr unordered)) (less_unordered (.inl unordered))
  rw [next, zadd, lookup_lone known different] at stepped
  simp only [call, bind, Option.bind_some, pure, Option.map_some, Option.some.injEq] at stepped
  obtain rfl := stepped
  apply not_inStep_of_missing (Finmap.lookup_insert _)
  intro entry inside
  cases List.mem_singleton.mp inside
  exact different.symm

/-! ### Steps -/

theorem next_coherent {set : SortedSet} (coherent : set.Coherent) {op : SetOp}
    (harmless : set.Harmless op) : ∃ later, set.next op = some later ∧ later.Coherent := by
  rcases coherent with ⟨tree, coupled⟩ | ⟨only, known, unordered, rfl⟩
  · cases op with
    | zadd member score =>
      rcases harmless with alone | ⟨ordered, -⟩
      · obtain ⟨answer, call⟩ := coupled.zadd_only alone score
        exact ⟨lone member score, next_zadd call, coherent_lone member score⟩
      · obtain ⟨later, laterTree, call, coupledLater, -⟩ := zadd_spec coupled member ordered
        exact ⟨later, next_zadd call, .inl ⟨laterTree, coupledLater⟩⟩
    | zrem member =>
      obtain ⟨later, laterTree, call, coupledLater, -⟩ := zrem_spec coupled member
      exact ⟨later, next_zrem call, .inl ⟨laterTree, coupledLater⟩⟩
    | clear => exact ⟨empty, rfl, .inl ⟨.empty, .empty⟩⟩
  · have bound : (lone only known).scores.lookup only = some known := Finmap.lookup_insert _
    cases op with
    | zadd member score =>
      -- The only member has NaN, so a harmless call gives it a new score.
      have same : only = member := by
        rcases harmless with alone | ⟨-, others⟩
        · exact alone only (Finmap.mem_of_lookup_eq_some bound)
        · rcases others only known bound with same | ordered
          · exact same
          · rw [unordered] at ordered
            cases ordered
      subst same
      exact ⟨lone only score, next_zadd (zadd_lone unordered score), coherent_lone only score⟩
    | zrem member =>
      by_cases same : member = only
      · subst same
        exact ⟨empty, next_zrem (zrem_lone unordered), .inl ⟨.empty, .empty⟩⟩
      · refine ⟨lone only known, ?_, .inr ⟨only, known, unordered, rfl⟩⟩
        rw [next, zrem, lookup_lone known same]
        rfl
    | clear => exact ⟨empty, rfl, .inl ⟨.empty, .empty⟩⟩

theorem next_not_inStep {set : SortedSet} (coherent : set.Coherent) {op : SetOp} {later : SortedSet}
    (harmful : ¬ set.Harmless op) (stepped : set.next op = some later) : ¬ later.InStep := by
  cases op with
  | zadd member score =>
    obtain ⟨beside, meets⟩ := not_or.mp harmful
    push Not at beside
    obtain ⟨other, present, different⟩ := beside
    rcases coherent with ⟨tree, coupled⟩ | ⟨only, known, unordered, rfl⟩
    · -- The scores already there are numbers, so the new one is NaN.
      have numbers : ∀ other known, set.scores.lookup other = some known →
          other = member ∨ known.isNaN = false := by
        intro other known bound
        obtain ⟨entry, -, -, rfl⟩ := (coupled.listed.lookup other known).mp bound
        exact .inr entry.1.2
      have unordered : score.isNaN = true := by
        by_contra ordered
        exact meets ⟨Bool.eq_false_iff.mpr ordered, numbers⟩
      exact coupled.zadd_nan present different unordered stepped
    -- The member already there is the only one, and it has NaN itself.
    · have same : other = only := by
        by_contra distinct
        exact (Finmap.lookup_eq_none.mp (lookup_lone known distinct)) present
      subst same
      exact lone_zadd_other unordered different.symm score stepped
  | zrem member => exact absurd trivial harmful
  | clear => exact absurd trivial harmful

/-- **Both containers in step.** Every call of a run goes through and leaves the tree and the map
of scores in step, if and only if no call brings NaN and another member together. -/
theorem throughout_inStep_iff (ops : List SetOp) :
    Throughout next InStep empty ops ↔ EachStep next Harmless empty ops :=
  throughout_iff (fun _ coherent => Coherent.inStep coherent)
    (fun _ _ coherent harmless => next_coherent coherent harmless)
    (fun _ _ _ coherent harmful stepped => next_not_inStep coherent harmful stepped)
    (.inl ⟨.empty, .empty⟩) ops

/-- A NaN score beside a number: the second member has a score but no entry. -/
theorem nan_beside_number : ¬ ∀ ops : List SetOp, Throughout next InStep empty ops := by
  intro always
  obtain ⟨-, first, stepped, -, second, stepped', inStep⟩ :=
    always [.zadd (text "a") .one, .zadd (text "b") .quietNaN]
  have reached : run [.zadd (text "a") .one, .zadd (text "b") .quietNaN] = some second := by
    rw [run, List.foldlM_cons, stepped]
    change List.foldlM next first [.zadd (text "b") .quietNaN] = some second
    rw [List.foldlM_cons, stepped']
    rfl
  have counts : (run [.zadd (text "a") .one, .zadd (text "b") .quietNaN]).map
      (fun set => (set.size, set.tree.inorder.length)) = some (2, 1) := by decide
  rw [reached] at counts
  obtain ⟨two, one⟩ := Prod.mk.inj (Option.some.inj counts)
  have same := inStep.tree
  rw [two, one] at same
  cases same

end SortedSet
end ScuffedRedis
