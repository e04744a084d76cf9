import ScuffedRedis.Data.HashTableRefinement

/-!
# The shape of the hash table

What holds of the buckets and of their number after any run of operations. The load is tested
before an insertion, so one node may go beyond it.
-/
namespace ScuffedRedis
namespace HashTable

open Foundation

/-- The numbers of buckets and of nodes, wherever the nodes are. -/
structure Proportioned (table : HashTable) : Prop where
  powerOfTwo : ∃ k, table.buckets.length = 2 ^ k
  large : minCapacity.toNat ≤ table.buckets.length
  load : 4 * table.size ≤ 3 * table.buckets.length + 4

/-- The representation invariant. -/
structure WellFormed (table : HashTable) : Prop extends Proportioned table where
  home : ∀ bucket, ∀ node ∈ chain table.buckets bucket,
    bucketOf table.buckets.length node.key = bucket
  distinct : (table.nodes.map Node.key).Nodup
  counted : table.size = table.nodes.length

theorem wellFormed_of_refines {table : HashTable} {m : KeyMap} (refines : Refines table m)
    (proportioned : Proportioned table) : WellFormed table where
  toProportioned := proportioned
  home := refines.valid.home
  distinct := refines.represents.distinct
  counted := refines.valid.counted

/-! ### One operation -/

section Step

variable {table : HashTable} (proportioned : Proportioned table)

include proportioned

/-- With the same buckets and no more nodes. -/
theorem Proportioned.shrunk {other : HashTable}
    (buckets : other.buckets.length = table.buckets.length) (size : other.size ≤ table.size) :
    Proportioned other := by
  obtain ⟨powerOfTwo, large, load⟩ := proportioned
  refine ⟨by rwa [buckets], by rwa [buckets], ?_⟩
  rw [buckets]
  omega

/-- Twice the buckets leave room for two more nodes and the one beyond the load. -/
theorem Proportioned.resize (valid : Valid table) :
    Proportioned table.resize ∧ table.resize.size = table.size ∧
      4 * table.resize.size ≤ 3 * table.resize.buckets.length := by
  obtain ⟨doubled, -, -⟩ := resize_spec valid
  obtain ⟨⟨k, power⟩, large, load⟩ := proportioned
  have sixteen : minCapacity.toNat = 16 := rfl
  have size : table.resize.size = table.size := rfl
  refine ⟨⟨⟨k + 1, ?_⟩, ?_, ?_⟩, size, ?_⟩
  · rw [doubled, power, pow_succ, Nat.mul_comm]
  · omega
  · rw [doubled, size]
    omega
  · rw [doubled, size]
    omega

/-- The insertion itself, below the load. -/
theorem Proportioned.setNode (room : 4 * table.size ≤ 3 * table.buckets.length)
    (key value : Bytes) : Proportioned (table.setNode key value).2 := by
  rw [HashTable.setNode]
  split
  next => exact proportioned.shrunk List.length_set (Nat.le_refl _)
  next =>
    -- A new node, the only one that may go beyond the load.
    obtain ⟨powerOfTwo, large, -⟩ := proportioned
    refine ⟨?_, ?_, ?_⟩
    · rwa [List.length_set]
    · rwa [List.length_set]
    · rw [List.length_set]
      change 4 * (table.size + 1) ≤ _
      omega

theorem Proportioned.set (valid : Valid table) (key value : Bytes) :
    Proportioned (table.set key value).2 := by
  rw [set_eq]
  by_cases overloaded : table.overloaded = true
  · obtain ⟨resized, -, room⟩ := proportioned.resize valid
    rw [if_pos overloaded]
    exact resized.setNode room key value
  · -- The table has buckets, so it is not overloaded only when the load is small.
    have room : 4 * table.size ≤ 3 * table.buckets.length := by
      have positive := valid.capacity
      rw [HashTable.overloaded, decide_eq_true_iff, not_and_or, not_not] at overloaded
      rcases overloaded with noBuckets | light
      · rw [noBuckets] at positive
        exact absurd positive (Nat.lt_irrefl 0)
      · omega
    rw [if_neg overloaded]
    exact proportioned.setNode room key value

theorem Proportioned.del (key : Bytes) : Proportioned (table.del key).2 := by
  rw [HashTable.del]
  split
  · exact proportioned.shrunk List.length_set (Nat.sub_le _ _)
  · exact proportioned

theorem Proportioned.step (valid : Valid table) (op : Op) : Proportioned (table.step op).2 := by
  cases op with
  | set key value => exact proportioned.set valid key value
  | del key => exact proportioned.del key
  | clear => exact proportioned.shrunk (List.length_map _) (Nat.zero_le _)
  | get | exists' | size | keys => exact proportioned

end Step

/-- The doubled number of buckets is a `size_t`, since an overloaded table has few buckets for its
nodes. -/
theorem resize_fits {table : HashTable} (overloaded : table.overloaded = true)
    (few : table.size < 2 ^ 53) : table.buckets.length * 2 < 2 ^ 64 := by
  rw [HashTable.overloaded, decide_eq_true_iff] at overloaded
  omega

/-! ### Runs -/

theorem replicate_proportioned {k : Nat} (lower : 4 ≤ k) :
    Proportioned { buckets := List.replicate (2 ^ k) [], size := 0 } := by
  refine ⟨⟨k, List.length_replicate⟩, ?_, Nat.zero_le _⟩
  rw [List.length_replicate]
  exact Nat.pow_le_pow_right Nat.two_pos lower

/-- **The representation invariant holds after every run.** -/
theorem run_wellFormed (initialCapacity : UInt64) (bounded : initialCapacity.toNat ≤ 2 ^ 63) :
    ∃ table, (∀ fuel ≥ 60, construct fuel initialCapacity = some table) ∧
      ∀ ops, WellFormed (runInputs step table ops).2 := by
  obtain ⟨k, lower, -, constructed⟩ := construct_eq bounded
  refine ⟨{ buckets := List.replicate (2 ^ k) [], size := 0 }, constructed, fun ops => ?_⟩
  -- The finite map shows where the nodes are, and the proportions go along with it.
  have preserved (table : HashTable) (op : Op)
      (invariant : (∃ m, Refines table m) ∧ Proportioned table) :
      (∃ m, Refines (table.step op).2 m) ∧ Proportioned (table.step op).2 := by
    obtain ⟨⟨m, refines⟩, proportioned⟩ := invariant
    obtain ⟨next, -, after⟩ := step_refines table m op refines
    exact ⟨⟨next, after⟩, proportioned.step refines.valid op⟩
  obtain ⟨⟨m, refines⟩, proportioned⟩ := runInputs_invariant preserved
    ⟨⟨∅, empty_refines (Nat.two_pow_pos k)⟩, replicate_proportioned lower⟩ ops
  exact wellFormed_of_refines refines proportioned

theorem run_wellFormed_zero : (0 : UInt64).toNat ≤ 2 ^ 63 ∧
    ∃ table, (∀ fuel ≥ 60, construct fuel 0 = some table) ∧
      ∀ ops, WellFormed (runInputs step table ops).2 :=
  ⟨by decide, run_wellFormed 0 (by decide)⟩

end HashTable
end ScuffedRedis
