import ScuffedRedis.Data.HashTableLaws
import ScuffedRedis.Foundation.Simulation

/-!
# The hash table is a finite map

Runs of the table's operations answer as a finite map does.
-/
namespace ScuffedRedis
namespace HashTable

open Foundation

inductive Op where
  | set (key value : Bytes)
  | get (key : Bytes)
  | del (key : Bytes)
  | exists' (key : Bytes)
  | clear
  | size
  | keys

inductive Answer where
  | bool (result : Bool)
  | value (result : Option Bytes)
  | done
  | count (result : Nat)
  | keys (result : List Bytes)
  deriving DecidableEq

def step (table : HashTable) : Op → Answer × HashTable
  | .set key value =>
    let (isNew, next) := table.set key value
    (.bool isNew, next)
  | .get key => (.value (table.get key), table)
  | .del key =>
    let (deleted, next) := table.del key
    (.bool deleted, next)
  | .exists' key => (.bool (table.exists' key), table)
  | .clear => (.done, table.clear)
  | .size => (.count table.size, table)
  | .keys => (.keys (table.keys (text "*")), table)

/-- What a finite map answers, and the map after it. The order of the keys is left open. -/
def MapSpec (m : KeyMap) : Op → Answer → KeyMap → Prop
  | .set key value, answer, next => answer = .bool (decide (key ∉ m)) ∧ next = m.insert key value
  | .get key, answer, next => answer = .value (m.lookup key) ∧ next = m
  | .del key, answer, next => answer = .bool (decide (key ∈ m)) ∧ next = m.erase key
  | .exists' key, answer, next => answer = .bool (decide (key ∈ m)) ∧ next = m
  | .clear, answer, next => answer = .done ∧ next = ∅
  | .size, answer, next => answer = .count m.keys.card ∧ next = m
  | .keys, answer, next =>
    (∃ keys, answer = .keys keys ∧ keys.Nodup ∧ ∀ key, key ∈ keys ↔ key ∈ m) ∧ next = m

theorem matchesPattern_star (key : Bytes) : matchesPattern key (text "*") = true := by
  rw [matchesPattern, if_pos (by decide)]

/-- One call of the table is one step of the finite map. -/
theorem step_refines (table : HashTable) (m : KeyMap) (op : Op) (refines : Refines table m) :
    ∃ next, MapSpec m op (table.step op).1 next ∧ Refines (table.step op).2 next := by
  cases op with
  | set key value =>
    obtain ⟨isNew, after⟩ := set_refines refines key value
    exact ⟨_, ⟨congrArg _ isNew, rfl⟩, after⟩
  | get key => exact ⟨m, ⟨congrArg _ (get_eq refines key), rfl⟩, refines⟩
  | del key =>
    obtain ⟨deleted, after⟩ := del_refines refines key
    exact ⟨_, ⟨congrArg _ deleted, rfl⟩, after⟩
  | exists' key => exact ⟨m, ⟨congrArg _ (exists_eq refines key), rfl⟩, refines⟩
  | clear => exact ⟨∅, ⟨rfl, rfl⟩, clear_refines refines⟩
  | size => exact ⟨m, ⟨congrArg _ (size_eq refines), rfl⟩, refines⟩
  | keys =>
    obtain ⟨nodup, accepted⟩ := keys_spec refines (text "*")
    refine ⟨m, ⟨⟨_, rfl, nodup, fun key => ?_⟩, rfl⟩, refines⟩
    rw [accepted, matchesPattern_star]
    exact and_iff_left rfl

/-- **The table refines a finite map.** A table constructed with any capacity up to `2^63`
answers every run of calls as the empty finite map would, its nodes are the bindings of the
map, and a resize at any point keeps them all. -/
theorem run_refines_map (initialCapacity : UInt64) (bounded : initialCapacity.toNat ≤ 2 ^ 63) :
    ∃ table, (∀ fuel ≥ 60, construct fuel initialCapacity = some table) ∧
      ∀ ops, ∃ m, SpecRun MapSpec ∅ ops (runInputs step table ops).1 m ∧
        Represents Node.key Node.value (runInputs step table ops).2.nodes m ∧
        (runInputs step table ops).2.resize.nodes.Perm (runInputs step table ops).2.nodes := by
  obtain ⟨k, -, -, constructed⟩ := construct_eq bounded
  refine ⟨{ buckets := List.replicate (2 ^ k) [], size := 0 }, constructed, fun ops => ?_⟩
  have initial := empty_refines (Nat.two_pow_pos k)
  obtain ⟨m, answered, refines⟩ := runInputs_simulates Refines step_refines initial ops
  obtain ⟨-, -, moved⟩ := resize_spec refines.valid
  exact ⟨m, answered, refines.represents, moved⟩

theorem run_refines_map_zero : (0 : UInt64).toNat ≤ 2 ^ 63 ∧
    ∃ table, (∀ fuel ≥ 60, construct fuel 0 = some table) ∧
      ∀ ops, ∃ m, SpecRun MapSpec ∅ ops (runInputs step table ops).1 m ∧
        Represents Node.key Node.value (runInputs step table ops).2.nodes m ∧
        (runInputs step table ops).2.resize.nodes.Perm (runInputs step table ops).2.nodes :=
  ⟨by decide, run_refines_map 0 (by decide)⟩

end HashTable
end ScuffedRedis
