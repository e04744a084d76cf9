import ScuffedRedis.Data.HashTable
import ScuffedRedis.Foundation.Chaining
import ScuffedRedis.Foundation.FiniteMap

/-!
# What the hash table's operations do

Each operation is described by what it does to the finite map the nodes stand for. The
invariant links every node to its home bucket under the current number of buckets.
-/
namespace ScuffedRedis

open Foundation

/-- The finite map a table stands for. -/
abbrev KeyMap := Finmap fun _ : Bytes => Bytes

namespace HashTable

def nodes (table : HashTable) : List Node := table.buckets.flatten

/-- The home bucket of a node among `capacity` buckets. -/
def nodeHome (capacity : Nat) (node : Node) : Nat := bucketOf capacity node.key

structure Valid (table : HashTable) : Prop where
  capacity : 0 < table.buckets.length
  home : AtHome (nodeHome table.buckets.length) table.buckets
  counted : table.size = table.nodes.length

/-- The table is valid and its nodes are the bindings of the map. -/
structure Refines (table : HashTable) (m : KeyMap) : Prop where
  valid : Valid table
  represents : Represents Node.key Node.value table.nodes m

/-! ### Chains -/

theorem bucketOf_lt {capacity : Nat} (positive : 0 < capacity) (key : Bytes) :
    bucketOf capacity key < capacity := Nat.mod_lt _ positive

theorem findInChain_some {key : Bytes} {chain before after : List Node} {node : Node}
    (found : findInChain key chain = some (before, node, after)) :
    chain = before ++ node :: after ∧ node.key = key := by
  induction chain generalizing before with
  | nil => cases found
  | cons head rest ih =>
    rw [findInChain] at found
    by_cases named : head.key = key
    · rw [if_pos named] at found
      cases found
      exact ⟨rfl, named⟩
    -- The parts found in the rest, with the head before them.
    · rw [if_neg named, Option.map_eq_some_iff] at found
      obtain ⟨⟨tail, other, last⟩, deeper, split⟩ := found
      cases split
      obtain ⟨rest_eq, sameKey⟩ := ih deeper
      exact ⟨by rw [rest_eq, List.cons_append], sameKey⟩

theorem findInChain_none {key : Bytes} {chain : List Node} (missed : findInChain key chain = none) :
    ∀ node ∈ chain, node.key ≠ key := by
  induction chain with
  | nil => exact fun node present => absurd present List.not_mem_nil
  | cons head rest ih =>
    rw [findInChain] at missed
    by_cases named : head.key = key
    · rw [if_pos named] at missed
      cases missed
    · rw [if_neg named, Option.map_eq_none_iff] at missed
      intro node present
      rcases List.mem_cons.mp present with rfl | deeper
      · exact named
      · exact ih missed node deeper

/-! ### Looking a key up -/

theorem hash_lt {table : HashTable} (valid : Valid table) (key : Bytes) :
    table.hash key < table.buckets.length := bucketOf_lt valid.capacity key

/-- A key missing from its home chain is missing from the table. -/
theorem not_found {table : HashTable} (valid : Valid table) {key : Bytes}
    (missed : table.findInBucket (table.hash key) key = none) :
    ∀ node ∈ table.nodes, node.key ≠ key := by
  intro node present named
  have inHome := valid.home.mem_chain present
  rw [nodeHome, named] at inHome
  exact findInChain_none missed node inHome named

/-- The found node, and what its home chain can be replaced with. -/
theorem found {table : HashTable} (valid : Valid table) {key : Bytes} {before after : List Node}
    {node : Node} (hit : table.findInBucket (table.hash key) key = some (before, node, after)) :
    node.key = key ∧
      ∃ others, table.nodes.Perm (node :: (before ++ after ++ others)) ∧
        ∀ chain, (table.buckets.set (table.hash key) chain).flatten.Perm (chain ++ others) := by
  obtain ⟨chain_eq, named⟩ := findInChain_some hit
  obtain ⟨others, whole, replaced⟩ := exists_perm_set table.buckets (hash_lt valid key)
  refine ⟨named, others, ?_, replaced⟩
  have opened : table.nodes.Perm ((before ++ node :: after) ++ others) := by
    rw [← chain_eq]
    exact whole
  exact opened.trans (List.perm_middle.append_right others)

/-- Members of a home chain that is cut or changed in place are still at home. -/
theorem home_of_found {table : HashTable} (valid : Valid table) {key : Bytes}
    {before after : List Node} {node : Node}
    (hit : table.findInBucket (table.hash key) key = some (before, node, after)) :
    ∀ other ∈ before ++ after, nodeHome table.buckets.length other = table.hash key := by
  obtain ⟨chain_eq, -⟩ := findInChain_some hit
  intro other present
  apply valid.home
  change other ∈ chain table.buckets (table.hash key)
  rw [chain_eq, List.mem_append, List.mem_cons]
  rcases List.mem_append.mp present with early | late
  · exact .inl early
  · exact .inr (.inr late)

section Lookup

variable {table : HashTable} {m : KeyMap}

theorem mem_of_found (refines : Refines table m) {key : Bytes} {before after : List Node}
    {node : Node} (hit : table.findInBucket (table.hash key) key = some (before, node, after)) :
    key ∈ m := by
  obtain ⟨named, others, reordered, -⟩ := found refines.valid hit
  exact (refines.represents.mem_iff key).mpr
    ⟨node, reordered.mem_iff.mpr List.mem_cons_self, named⟩

theorem lookup_of_missed (refines : Refines table m) {key : Bytes}
    (missed : table.findInBucket (table.hash key) key = none) : m.lookup key = none :=
  refines.represents.lookup_eq_none (not_found refines.valid missed)

/-- `get` reads the finite map. -/
theorem get_eq (refines : Refines table m) (key : Bytes) : table.get key = m.lookup key := by
  rw [get]
  cases hit : table.findInBucket (table.hash key) key with
  | none =>
    rw [Option.map_none, lookup_of_missed refines hit]
  | some parts =>
    obtain ⟨before, node, after⟩ := parts
    obtain ⟨named, others, reordered, -⟩ := found refines.valid hit
    have present : node ∈ table.nodes := reordered.mem_iff.mpr List.mem_cons_self
    rw [Option.map_some, ← named, refines.represents.lookup_key present]

theorem exists_eq_get (table : HashTable) (key : Bytes) :
    table.exists' key = (table.get key).isSome := by
  rw [exists', get, Option.isSome_map]

theorem exists_eq (refines : Refines table m) (key : Bytes) :
    table.exists' key = decide (key ∈ m) := by
  rw [exists_eq_get, get_eq refines, Bool.eq_iff_iff, Finmap.lookup_isSome, decide_eq_true_iff]

theorem size_eq (refines : Refines table m) : table.size = m.keys.card := by
  rw [refines.valid.counted, refines.represents.card_keys]

end Lookup

/-! ### Resizing -/

theorem resize_buckets (table : HashTable) :
    table.resize.buckets =
      table.nodes.foldl (pushHome (nodeHome (table.buckets.length * 2)))
        (List.replicate (table.buckets.length * 2) []) := by
  rw [nodes, List.foldl_flatten]
  rfl

/-- `resize` doubles the buckets and only moves nodes. -/
theorem resize_spec {table : HashTable} (valid : Valid table) :
    table.resize.buckets.length = 2 * table.buckets.length ∧ Valid table.resize ∧
      table.resize.nodes.Perm table.nodes := by
  -- The nodes are dealt one by one to new chains, and each is pushed at its new home.
  have positive : 0 < table.buckets.length * 2 := Nat.mul_pos valid.capacity Nat.two_pos
  have inRange : ∀ node, nodeHome (table.buckets.length * 2) node <
      (List.replicate (table.buckets.length * 2) ([] : List Node)).length := by
    intro node
    rw [List.length_replicate]
    exact bucketOf_lt positive node.key
  obtain ⟨length, dealt, reordered⟩ :=
    foldl_pushHome table.nodes (List.replicate (table.buckets.length * 2) []) inRange
      (AtHome.replicate_nil _ _)
  rw [← resize_buckets] at length dealt reordered
  rw [List.length_replicate] at length
  have moved : table.resize.nodes.Perm table.nodes := by
    simpa [nodes] using reordered
  refine ⟨length.trans (Nat.mul_comm _ _), ?_, moved⟩
  constructor
  · rw [length]
    exact positive
  · rw [length]
    exact dealt
  · rw [moved.length_eq]
    exact valid.counted

theorem resize_refines {table : HashTable} {m : KeyMap} (refines : Refines table m) :
    Refines table.resize m := by
  obtain ⟨-, valid, moved⟩ := resize_spec refines.valid
  exact ⟨valid, refines.represents.perm moved.symm⟩

/-! ### Changing the table -/

section Change

variable {table : HashTable} {m : KeyMap}

/-- The table that `set` and `del` leave, with another home chain for the key. -/
theorem valid_set_chain (valid : Valid table) {bucket size : Nat} {chain : List Node}
    (belongs : ∀ node ∈ chain, nodeHome table.buckets.length node = bucket)
    (counted : size = (table.buckets.set bucket chain).flatten.length) :
    Valid { buckets := table.buckets.set bucket chain, size := size } := by
  constructor
  · simpa using valid.capacity
  · simpa using valid.home.set belongs
  · exact counted

/-- The part of `set` after a possible resize. -/
def setNode (table : HashTable) (key value : Bytes) : Bool × HashTable :=
  let bucket := table.hash key
  match table.findInBucket bucket key with
  | some (before, node, after) =>
    (false, { table with
      buckets := table.buckets.set bucket (before ++ { node with value := value } :: after) })
  | none =>
    (true, { buckets := table.buckets.set bucket (⟨key, value⟩ :: chain table.buckets bucket),
             size := table.size + 1 })

theorem set_eq (table : HashTable) (key value : Bytes) :
    table.set key value = (if table.overloaded then table.resize else table).setNode key value :=
  rfl

theorem setNode_refines (refines : Refines table m) (key value : Bytes) :
    (table.setNode key value).1 = decide (key ∉ m) ∧
      Refines (table.setNode key value).2 (m.insert key value) := by
  rw [setNode]
  cases hit : table.findInBucket (table.hash key) key with
  | some parts =>
    obtain ⟨before, node, after⟩ := parts
    obtain ⟨named, others, reordered, replaced⟩ := found refines.valid hit
    have present : key ∈ m := mem_of_found refines hit
    -- The changed node takes the place of the found one, which the table may list first.
    have changed : (table.buckets.set (table.hash key)
        (before ++ { node with value := value } :: after)).flatten.Perm
        ({ node with value := value } :: (before ++ after ++ others)) :=
      (replaced _).trans (List.perm_middle.append_right others)
    refine ⟨by simp [present], ?_, ?_⟩
    · apply valid_set_chain refines.valid
      · intro other member
        rcases List.mem_cons.mp (List.perm_middle.mem_iff.mp member) with rfl | kept
        · rw [nodeHome, named]
          rfl
        · exact home_of_found refines.valid hit other kept
      · rw [changed.length_eq, refines.valid.counted, reordered.length_eq, List.length_cons,
          List.length_cons]
    · have updated := (refines.represents.perm reordered).update
        { node with value := value } rfl
      have sameBinding : m.insert node.key value = m.insert key value := by rw [named]
      rw [← sameBinding]
      exact updated.perm changed.symm
  | none =>
    have fresh := not_found refines.valid hit
    have absent : key ∉ m := Finmap.lookup_eq_none.mp (lookup_of_missed refines hit)
    -- The new node comes first in its home chain.
    have grown : (table.buckets.set (table.hash key)
        (⟨key, value⟩ :: chain table.buckets (table.hash key))).flatten.Perm
        (⟨key, value⟩ :: table.nodes) :=
      flatten_pushHome_perm
        (show nodeHome table.buckets.length ⟨key, value⟩ < _ from hash_lt refines.valid key)
    refine ⟨by simp [absent], ?_, ?_⟩
    · apply valid_set_chain refines.valid
      · intro other member
        rcases List.mem_cons.mp member with rfl | older
        · rfl
        · exact refines.valid.home _ other older
      · rw [grown.length_eq, refines.valid.counted, List.length_cons]
    · exact (refines.represents.insert_new ⟨key, value⟩ fresh).perm grown.symm

/-- `set` binds the key, resized or not, and says whether it was new. -/
theorem set_refines (refines : Refines table m) (key value : Bytes) :
    (table.set key value).1 = decide (key ∉ m) ∧
      Refines (table.set key value).2 (m.insert key value) := by
  rw [set_eq]
  split
  · exact setNode_refines (resize_refines refines) key value
  · exact setNode_refines refines key value

/-- `del` unbinds the key and says whether it was bound. -/
theorem del_refines (refines : Refines table m) (key : Bytes) :
    (table.del key).1 = decide (key ∈ m) ∧ Refines (table.del key).2 (m.erase key) := by
  rw [del]
  cases hit : table.findInBucket (table.hash key) key with
  | some parts =>
    obtain ⟨before, node, after⟩ := parts
    obtain ⟨named, others, reordered, replaced⟩ := found refines.valid hit
    have present : key ∈ m := mem_of_found refines hit
    refine ⟨by simp [present], ?_, ?_⟩
    · apply valid_set_chain refines.valid (home_of_found refines.valid hit)
      rw [(replaced _).length_eq, refines.valid.counted, reordered.length_eq, List.length_cons,
        Nat.add_sub_cancel]
    · -- With the found node in front, the others represent the map without its key.
      have erased := (refines.represents.perm reordered).erase
      rw [named] at erased
      exact erased.perm (replaced (before ++ after)).symm
  | none =>
    have unbound := lookup_of_missed refines hit
    have absent : key ∉ m := Finmap.lookup_eq_none.mp unbound
    rw [erase_of_lookup_eq_none unbound]
    exact ⟨by simp [absent], refines⟩

theorem empty_refines {n : Nat} (positive : 0 < n) :
    Refines { buckets := List.replicate n [], size := 0 } ∅ := by
  have noNodes : nodes { buckets := List.replicate n [], size := 0 } = [] := by simp [nodes]
  constructor
  · exact ⟨by simpa using positive, AtHome.replicate_nil _ _, by rw [noNodes]; rfl⟩
  · rw [noNodes]
    exact Represents.nil

theorem clear_eq (table : HashTable) :
    table.clear = { buckets := List.replicate table.buckets.length [], size := 0 } := by
  rw [clear, List.map_const']

theorem clear_refines (refines : Refines table m) : Refines table.clear ∅ := by
  rw [clear_eq]
  exact empty_refines refines.valid.capacity

/-- `keys` lists the accepted keys, each once. -/
theorem keys_spec (refines : Refines table m) (pattern : Bytes) :
    (table.keys pattern).Nodup ∧
      ∀ key, key ∈ table.keys pattern ↔ key ∈ m ∧ matchesPattern key pattern := by
  have listed : table.keys pattern =
      (table.nodes.map Node.key).filter (matchesPattern · pattern) := by
    rw [keys, nodes, List.map_flatten, List.filter_flatten, List.flatMap, List.map_map]
    rfl
  rw [listed]
  refine ⟨refines.represents.distinct.filter _, fun key => ?_⟩
  rw [List.mem_filter, List.mem_map, refines.represents.mem_iff]

end Change

/-! ### Construction -/

theorem roundUp_eq {initialCapacity : UInt64} (bounded : initialCapacity.toNat ≤ 2 ^ 63)
    {fuel j : Nat} (exponent : j ≤ 63) (enough : 63 - j < fuel) {capacity : UInt64}
    (power : capacity.toNat = 2 ^ j) :
    ∃ k, j ≤ k ∧ k ≤ 63 ∧
      ∃ rounded, roundUp initialCapacity fuel capacity = some rounded ∧ rounded.toNat = 2 ^ k := by
  -- The distance of the exponent from 63 falls with every doubling.
  induction fuel generalizing j capacity with
  | zero => omega
  | succ fuel ih =>
    rw [roundUp]
    by_cases small : capacity < initialCapacity
    · have below : 2 ^ j < 2 ^ 63 := by
        have := UInt64.lt_iff_toNat_lt.mp small
        omega
      have smaller : j < 63 := (Nat.pow_lt_pow_iff_right (by omega)).mp below
      have doubled : (capacity * 2).toNat = 2 ^ (j + 1) := by
        rw [UInt64.toNat_mul, power, pow_succ]
        exact Nat.mod_eq_of_lt (by change 2 ^ j * 2 < 2 ^ 64; omega)
      obtain ⟨k, lower, upper, found⟩ := ih (j := j + 1) (by omega) (by omega) doubled
      rw [if_pos small]
      exact ⟨k, by omega, upper, found⟩
    · rw [if_neg small]
      exact ⟨j, le_refl j, exponent, capacity, rfl, power⟩

theorem roundUp_mono {initialCapacity capacity rounded : UInt64} {fuel more : Nat}
    (done : roundUp initialCapacity fuel capacity = some rounded) (enough : fuel ≤ more) :
    roundUp initialCapacity more capacity = some rounded := by
  induction fuel generalizing more capacity with
  | zero => cases done
  | succ fuel ih =>
    obtain ⟨more, rfl⟩ := Nat.exists_eq_add_of_lt enough
    rw [roundUp] at done ⊢
    split at done
    next small => rw [if_pos small]; exact ih done (by omega)
    next large => rw [if_neg large]; exact done

/-- Up to `2^63` the constructor's loop ends within 60 iterations, with a power of two of at
least 16. -/
theorem construct_eq {initialCapacity : UInt64} (bounded : initialCapacity.toNat ≤ 2 ^ 63) :
    ∃ k, 4 ≤ k ∧ k ≤ 63 ∧ ∀ fuel ≥ 60,
      construct fuel initialCapacity =
        some { buckets := List.replicate (2 ^ k) [], size := 0 } := by
  obtain ⟨k, lower, upper, rounded, done, power⟩ :=
    roundUp_eq bounded (show 4 ≤ 63 by omega) (show 63 - 4 < 60 by omega)
      (show minCapacity.toNat = 2 ^ 4 from rfl)
  refine ⟨k, lower, upper, fun fuel enough => ?_⟩
  rw [construct, roundUp_mono done enough, Option.map_some, power]

theorem le_of_roundUp {initialCapacity capacity rounded : UInt64} {fuel : Nat}
    (done : roundUp initialCapacity fuel capacity = some rounded) : initialCapacity ≤ rounded := by
  induction fuel generalizing capacity with
  | zero => cases done
  | succ fuel ih =>
    rw [roundUp] at done
    split at done
    next small => exact ih done
    next large =>
      cases done
      exact UInt64.not_lt.mp large

/-- Above `2^63` the doubling leaves 64 bits before the bound is reached, and stays at zero. -/
theorem roundUp_endless {initialCapacity : UInt64} (beyond : 2 ^ 63 < initialCapacity.toNat)
    {capacity : UInt64} (doubled : capacity.toNat = 0 ∨ ∃ k ≤ 63, capacity.toNat = 2 ^ k)
    (fuel : Nat) : roundUp initialCapacity fuel capacity = none := by
  induction fuel generalizing capacity with
  | zero => rfl
  | succ fuel ih =>
    have small : capacity < initialCapacity := by
      rw [UInt64.lt_iff_toNat_lt]
      rcases doubled with zero | ⟨k, upper, power⟩
      · omega
      · have bound : 2 ^ k ≤ 2 ^ 63 := Nat.pow_le_pow_right (by omega) upper
        omega
    rw [roundUp, if_pos small]
    apply ih
    have product : (capacity * 2).toNat = capacity.toNat * 2 % 2 ^ 64 := UInt64.toNat_mul _ _
    rcases doubled with zero | ⟨k, upper, power⟩
    · left
      simp [product, zero]
    · rcases Nat.lt_or_eq_of_le upper with less | rfl
      · right
        refine ⟨k + 1, less, ?_⟩
        have bound : 2 ^ (k + 1) ≤ 2 ^ 63 := Nat.pow_le_pow_right (by omega) less
        rw [product, power, ← pow_succ, Nat.mod_eq_of_lt (by omega)]
      · left
        simp [product, power]

/-- **The rounding ends exactly up to `2^63`.** It then gives a power of two that is at least 16 and
at least what was asked for. -/
theorem roundUp_ends_iff (initialCapacity : UInt64) :
    (∃ fuel capacity, roundUp initialCapacity fuel minCapacity = some capacity ∧
      (∃ k, capacity.toNat = 2 ^ k) ∧ 16 ≤ capacity.toNat ∧
        initialCapacity.toNat ≤ capacity.toNat) ↔
      initialCapacity.toNat ≤ 2 ^ 63 := by
  have start : minCapacity.toNat = 2 ^ 4 := rfl
  constructor
  · rintro ⟨fuel, capacity, done, -⟩
    by_contra beyond
    rw [roundUp_endless (not_le.mp beyond) (.inr ⟨4, by omega, start⟩)] at done
    cases done
  · intro bounded
    obtain ⟨k, lower, -, capacity, done, power⟩ :=
      roundUp_eq bounded (show 4 ≤ 63 by omega) (show 63 - 4 < 60 by omega) start
    have least : 2 ^ 4 ≤ 2 ^ k := Nat.pow_le_pow_right (by omega) lower
    refine ⟨60, capacity, done, ⟨k, power⟩, ?_, ?_⟩
    · rw [power]
      exact least
    · exact UInt64.le_iff_toNat_le.mp (le_of_roundUp done)

/-- One more than `2^63`. -/
theorem huge_capacity_never_ends :
    ¬ ∀ initialCapacity : UInt64, ∃ fuel capacity,
      roundUp initialCapacity fuel minCapacity = some capacity ∧
        (∃ k, capacity.toNat = 2 ^ k) ∧ 16 ≤ capacity.toNat ∧
          initialCapacity.toNat ≤ capacity.toNat := by
  intro ends
  obtain ⟨fuel, capacity, done, -⟩ := ends 0x8000000000000001
  have endless : roundUp 0x8000000000000001 fuel minCapacity = none :=
    roundUp_endless (by decide) (.inr ⟨4, by omega, rfl⟩) fuel
  rw [endless] at done
  cases done

/-! ### Contents as a function -/

/-- The value of each key. -/
abbrev Contents := Bytes → Option Bytes

/-- The table has these contents. -/
def Holds (table : HashTable) (contents : Contents) : Prop :=
  ∃ m, Refines table m ∧ ∀ key, m.lookup key = contents key

namespace Holds

variable {table : HashTable} {m : KeyMap} {contents : Contents}

theorem of_refines (refines : Refines table m) : table.Holds fun key => m.lookup key :=
  ⟨m, refines, fun _ => rfl⟩

theorem get (holds : table.Holds contents) (key : Bytes) : table.get key = contents key := by
  obtain ⟨m, refines, lookup⟩ := holds
  rw [get_eq refines, lookup]

theorem exists' (holds : table.Holds contents) (key : Bytes) :
    table.exists' key = (contents key).isSome := by
  rw [exists_eq_get, holds.get]

theorem set (holds : table.Holds contents) (key value : Bytes) :
    (table.set key value).1 = (contents key).isNone ∧
      (table.set key value).2.Holds (Function.update contents key (some value)) := by
  obtain ⟨m, refines, lookup⟩ := holds
  obtain ⟨isNew, after⟩ := set_refines refines key value
  refine ⟨?_, _, after, fun other => ?_⟩
  · rw [isNew, ← lookup, Bool.eq_iff_iff, decide_eq_true_iff, Option.isNone_iff_eq_none,
      Finmap.lookup_eq_none]
  · rw [lookup_insert_eq, lookup]
    by_cases named : other = key
    · rw [named, if_pos rfl, Function.update_self]
    · rw [if_neg (Ne.symm named), Function.update_of_ne named]

theorem del (holds : table.Holds contents) (key : Bytes) :
    (table.del key).1 = (contents key).isSome ∧
      (table.del key).2.Holds (Function.update contents key none) := by
  obtain ⟨m, refines, lookup⟩ := holds
  obtain ⟨deleted, after⟩ := del_refines refines key
  refine ⟨?_, _, after, fun other => ?_⟩
  · rw [deleted, ← lookup, Bool.eq_iff_iff, decide_eq_true_iff, Finmap.lookup_isSome]
  · rw [lookup_erase_eq, lookup]
    by_cases named : other = key
    · rw [named, if_pos rfl, Function.update_self]
    · rw [if_neg (Ne.symm named), Function.update_of_ne named]

end Holds

end HashTable
end ScuffedRedis
