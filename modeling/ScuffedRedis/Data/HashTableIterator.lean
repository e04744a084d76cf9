import ScuffedRedis.Data.HashTableRefinement
import ScuffedRedis.Foundation.Slices

/-!
# Iterators of the hash table

An iterator is a triple of a table, a bucket and a node. Its node stands for the rest of a chain,
from that node on, and its `next` for the tail of that list.
-/
namespace ScuffedRedis
namespace HashTable

open Foundation

structure Iterator where
  /-- Whether `table_` points to the table; it is null otherwise. -/
  attached : Bool
  bucket : Nat
  /-- Empty for a null pointer. -/
  node : List Node
  deriving DecidableEq

namespace Iterator

/-- The loop of `advance_to_next`, over the buckets from this index on. -/
def advanceLoop (bucket : Nat) : List (List Node) → Iterator
  | [] => { attached := false, bucket := bucket, node := [] }
  | [] :: buckets => advanceLoop (bucket + 1) buckets
  | (node :: next) :: _ => { attached := true, bucket := bucket, node := node :: next }

def advanceToNext (table : HashTable) (it : Iterator) : Iterator :=
  advanceLoop (it.bucket + 1) (table.buckets.drop (it.bucket + 1))

/-- The constructor, which advances when it is given a table without a node. -/
def construct (table : HashTable) (it : Iterator) : Iterator :=
  if it.node = [] ∧ it.attached then advanceToNext table it else it

/-- `operator++`. -/
def increment (table : HashTable) (it : Iterator) : Iterator :=
  if it.node = [] ∨ !it.attached then it
  else
    let it := { it with node := it.node.tail }
    if it.node = [] then advanceToNext table it else it

/-- `operator*`, where the node is not null. -/
def current (it : Iterator) : Option Node := it.node.head?

end Iterator

def begin' (table : HashTable) : Iterator :=
  Iterator.construct table { attached := true, bucket := 0, node := [] }

def end' (table : HashTable) : Iterator :=
  Iterator.construct table { attached := false, bucket := 0, node := [] }

/-- The iterator after so many increments. -/
def iteratorAfter (table : HashTable) (count : Nat) : Iterator :=
  (Iterator.increment table)^[count] table.begin'

/-- The loop from `begin` until `end` terminates and visits each node exactly once. -/
def IteratesOnce (table : HashTable) : Prop :=
  ∃ count, table.iteratorAfter count = table.end' ∧
    (∀ before < count, table.iteratorAfter before ≠ table.end') ∧
    ((List.range count).map fun before => (table.iteratorAfter before).current).Perm
      (table.nodes.map some)

/-! ### Positions -/

namespace Iterator

/-- The nodes that the iterator still visits. -/
def remaining (table : HashTable) (it : Iterator) : List Node :=
  if it.attached then it.node ++ (table.buckets.drop (it.bucket + 1)).flatten else []

/-- Past the first bucket, with a node as long as there is a table. -/
structure Placed (it : Iterator) : Prop where
  bucket : 0 < it.bucket
  node : it.node ≠ [] ↔ it.attached = true

variable {table : HashTable} {it : Iterator}

theorem advanceLoop_spec {bucket : Nat} (positive : 0 < bucket) {buckets : List (List Node)}
    (rest : table.buckets.drop bucket = buckets) :
    Placed (advanceLoop bucket buckets) ∧
      remaining table (advanceLoop bucket buckets) = buckets.flatten := by
  induction buckets generalizing bucket with
  | nil => exact ⟨⟨positive, by simp [advanceLoop]⟩, by simp [advanceLoop, remaining]⟩
  | cons chain buckets ih =>
    have rest' : table.buckets.drop (bucket + 1) = buckets := drop_succ rest
    cases chain with
    | nil => simpa [advanceLoop] using ih (Nat.succ_pos bucket) rest'
    | cons node next =>
      exact ⟨⟨positive, by simp [advanceLoop]⟩, by simp [advanceLoop, remaining, rest']⟩

theorem advanceToNext_spec (table : HashTable) (it : Iterator) :
    Placed (advanceToNext table it) ∧
      remaining table (advanceToNext table it) = (table.buckets.drop (it.bucket + 1)).flatten :=
  advanceLoop_spec (Nat.succ_pos it.bucket) rfl

theorem Placed.increment (placed : Placed it) (table : HashTable) :
    Placed (increment table it) ∧
      remaining table (increment table it) = (remaining table it).tail := by
  obtain ⟨attached, bucket, node⟩ := it
  obtain ⟨positive, present⟩ := placed
  cases node with
  | nil =>
    -- The end position stays where it is.
    have detached : attached = false := by simpa using present
    subst detached
    exact ⟨⟨positive, present⟩, by simp [Iterator.increment, remaining]⟩
  | cons first next =>
    have attached : attached = true := by simpa using present
    subst attached
    cases next with
    | nil =>
      have advanced := advanceToNext_spec table { attached := true, bucket := bucket, node := [] }
      simpa [Iterator.increment, remaining] using advanced
    | cons second next =>
      exact ⟨⟨positive, by simp [Iterator.increment]⟩, by simp [Iterator.increment, remaining]⟩

theorem Placed.current_eq (placed : Placed it) : it.current = (remaining table it).head? := by
  obtain ⟨attached, bucket, node⟩ := it
  obtain ⟨-, present⟩ := placed
  cases node with
  | nil =>
    have detached : attached = false := by simpa using present
    simp [current, remaining, detached]
  | cons first next =>
    have attached : attached = true := by simpa using present
    simp [current, remaining, attached]

end Iterator

/-! ### Iteration -/

theorem iteratorAfter_spec (table : HashTable) (count : Nat) :
    (table.iteratorAfter count).Placed ∧
      (table.iteratorAfter count).remaining table = (table.buckets.tail.flatten).drop count := by
  induction count with
  | zero =>
    have started := Iterator.advanceToNext_spec table { attached := true, bucket := 0, node := [] }
    simpa [iteratorAfter, begin', Iterator.construct] using started
  | succ count ih =>
    obtain ⟨placed, remaining⟩ := ih
    rw [iteratorAfter, Function.iterate_succ_apply', ← iteratorAfter]
    obtain ⟨placed', remaining'⟩ := placed.increment table
    exact ⟨placed', by rw [remaining', remaining, List.tail_drop]⟩

/-- The bucket of `end` is the first one, which no iterator from `begin` is at. -/
theorem iteratorAfter_ne_end (table : HashTable) (count : Nat) :
    table.iteratorAfter count ≠ table.end' := by
  intro same
  have positive := (iteratorAfter_spec table count).1.bucket
  simp [same, end', Iterator.construct] at positive

theorem not_iteratesOnce (table : HashTable) : ¬ table.IteratesOnce := by
  rintro ⟨count, ended, -⟩
  exact iteratorAfter_ne_end table count ended

theorem current_iteratorAfter (table : HashTable) (count : Nat) :
    (table.iteratorAfter count).current = table.buckets.tail.flatten[count]? := by
  obtain ⟨placed, remaining⟩ := iteratorAfter_spec table count
  rw [placed.current_eq, remaining, List.head?_drop]

/-- **Iteration from `begin` never meets `end`.** In every table that a run of calls reaches, the
iterator goes through the nodes outside the first bucket, once each in the order of the buckets,
and has a null node from then on, in another bucket than `end`. -/
theorem run_not_iteratesOnce (initialCapacity : UInt64) (bounded : initialCapacity.toNat ≤ 2 ^ 63) :
    ∃ table, (∀ fuel ≥ 60, construct fuel initialCapacity = some table) ∧
      ∀ ops table', (runInputs step table ops).2 = table' →
        ¬ table'.IteratesOnce ∧ (∀ count, table'.iteratorAfter count ≠ table'.end') ∧
          ∀ count, (table'.iteratorAfter count).current = table'.buckets.tail.flatten[count]? := by
  obtain ⟨k, -, -, constructed⟩ := construct_eq bounded
  exact ⟨_, constructed, fun ops table' _ =>
    ⟨not_iteratesOnce table', iteratorAfter_ne_end table', current_iteratorAfter table'⟩⟩

theorem run_not_iteratesOnce_zero : (0 : UInt64).toNat ≤ 2 ^ 63 ∧
    ∃ table, (∀ fuel ≥ 60, construct fuel 0 = some table) ∧
      ∀ ops table', (runInputs step table ops).2 = table' →
        ¬ table'.IteratesOnce ∧ (∀ count, table'.iteratorAfter count ≠ table'.end') ∧
          ∀ count, (table'.iteratorAfter count).current = table'.buckets.tail.flatten[count]? :=
  ⟨by decide, run_not_iteratesOnce 0 (by decide)⟩

/-- The iteration over a new table with 16 buckets starts past its last bucket. -/
theorem iteration_of_empty_table : ¬ ∀ (initialCapacity : UInt64) (fuel : Nat) (table : HashTable)
    (ops : List Op), initialCapacity.toNat ≤ 2 ^ 63 → construct fuel initialCapacity = some table →
      (runInputs step table ops).2.IteratesOnce := by
  intro iterates
  exact not_iteratesOnce _ (iterates 16 1 _ [] (by decide) rfl)

end HashTable
end ScuffedRedis
