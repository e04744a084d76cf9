import ScuffedRedis.Data.AvlTree
import ScuffedRedis.Foundation.Binary64
import ScuffedRedis.Protocol.Message

/-!
# The sorted set

A tree of entries, ordered by score and then by member, beside a map from members to scores.
The tree stores `true` at every entry. An `int` is an `Int32`. A call returns nothing where the
tree would follow a null pointer.
-/
namespace ScuffedRedis

open Foundation

structure SortedSetEntry where
  score : Binary64
  member : Bytes
  deriving DecidableEq

/-- `operator<`. Strings compare by their bytes. -/
def SortedSetEntry.less (entry other : SortedSetEntry) : Bool :=
  if entry.score.differs other.score then entry.score.less other.score
  else decide (entry.member < other.member)

structure SortedSet where
  tree : AVLTree SortedSetEntry Bool
  scores : Finmap fun _ : Bytes => Binary64
  size : Nat

/-- The calls that change a set, for runs. -/
inductive SetOp where
  | zadd (member : Bytes) (score : Binary64)
  | zrem (member : Bytes)
  | clear

namespace SortedSet

def empty : SortedSet where
  tree := .empty
  scores := ∅
  size := 0

/-! ### Updates -/

def zadd (set : SortedSet) (member : Bytes) (score : Binary64) : Option (Int32 × SortedSet) :=
  match set.scores.lookup member with
  | some oldScore => do
    let (_, tree) ← set.tree.remove SortedSetEntry.less ⟨oldScore, member⟩
    let (_, tree) ← tree.insert SortedSetEntry.less ⟨score, member⟩ true
    return (0, { set with tree := tree, scores := set.scores.insert member score })
  | none => do
    let (_, tree) ← set.tree.insert SortedSetEntry.less ⟨score, member⟩ true
    return (1, ⟨tree, set.scores.insert member score, set.size + 1⟩)

def zrem (set : SortedSet) (member : Bytes) : Option (Int32 × SortedSet) :=
  match set.scores.lookup member with
  | none => some (0, set)
  | some score => do
    let (_, tree) ← set.tree.remove SortedSetEntry.less ⟨score, member⟩
    return (1, ⟨tree, set.scores.erase member, set.size - 1⟩)

/-- The body of the loop of a bulk call, with the sum of the answers so far. -/
def addAnswer {α : Type} (call : SortedSet → α → Option (Int32 × SortedSet)) :
    Int32 × SortedSet → α → Option (Int32 × SortedSet)
  | (total, set), item => do
    let (answer, set) ← call set item
    return (total + answer, set)

/-- One call for each item, and the sum of their answers. -/
def sumCalls {α : Type} (call : SortedSet → α → Option (Int32 × SortedSet)) (items : List α)
    (set : SortedSet) : Option (Int32 × SortedSet) :=
  items.foldlM (addAnswer call) (0, set)

def zaddMulti (set : SortedSet) (items : List (Bytes × Binary64)) : Option (Int32 × SortedSet) :=
  sumCalls (fun set (member, score) => set.zadd member score) items set

def zremMulti (set : SortedSet) (members : List Bytes) : Option (Int32 × SortedSet) :=
  sumCalls zrem members set

def clear (set : SortedSet) : SortedSet := ⟨set.tree.clear, ∅, 0⟩

/-- One call, and the set after it. -/
def next (set : SortedSet) : SetOp → Option SortedSet
  | .zadd member score => (set.zadd member score).map Prod.snd
  | .zrem member => (set.zrem member).map Prod.snd
  | .clear => some set.clear

/-- The set after a sequence of calls on a new one. -/
def run (ops : List SetOp) : Option SortedSet := ops.foldlM next empty

/-! ### Queries -/

def zcard (set : SortedSet) : Nat := set.size

def zscore (set : SortedSet) (member : Bytes) : Option Binary64 := set.scores.lookup member

def zrank (set : SortedSet) (member : Bytes) : Option Int32 :=
  match set.scores.lookup member with
  | none => none
  | some score => some (set.tree.rank SortedSetEntry.less ⟨score, member⟩)

def zrevrank (set : SortedSet) (member : Bytes) : Option Int32 :=
  match set.zrank member with
  | some rank => some (Int32.ofNat set.size - 1 - rank)
  | none => none

def normalizeIndex (set : SortedSet) (index : Int32) : Int32 :=
  if index < 0 then Int32.ofNat set.size + index else index

/-- The loop of `zrange` from index `i` on; it runs at most once for each entry. -/
def zrangeLoop (withScores : Bool) (allEntries : List (SortedSetEntry × Bool)) (stop : Int32) :
    Nat → Int32 → List (Bytes × Binary64) → List (Bytes × Binary64)
  | 0, _, result => result
  | fuel + 1, i, result =>
    if i ≤ stop ∧ i < Int32.ofNat allEntries.length then
      match allEntries[i.toInt.toNat]? with
      | none => result
      | some (entry, _) =>
        let score := if withScores then entry.score else .zero
        zrangeLoop withScores allEntries stop fuel (i + 1) (result ++ [(entry.member, score)])
    else result

def zrange (set : SortedSet) (start stop : Int32) (withScores : Bool) : List (Bytes × Binary64) :=
  if set.size = 0 then []
  else
    let start := set.normalizeIndex start
    let stop := set.normalizeIndex stop
    let start := if start < 0 then 0 else start
    let stop := if stop ≥ Int32.ofNat set.size then Int32.ofNat (set.size - 1) else stop
    if start > stop then []
    else
      let allEntries := set.tree.inorder
      zrangeLoop withScores allEntries stop allEntries.length start []

def zrevrange (set : SortedSet) (start stop : Int32) (withScores : Bool) :
    List (Bytes × Binary64) :=
  (set.zrange start stop withScores).reverse

/-- The member of the second bound is what the source takes for the greatest string. -/
def zrangebyscore (set : SortedSet) (min max : Binary64) (withScores : Bool) :
    List (Bytes × Binary64) :=
  let minEntry : SortedSetEntry := ⟨min, []⟩
  let maxEntry : SortedSetEntry := ⟨max, [0xFF]⟩
  let entries := set.tree.range SortedSetEntry.less minEntry maxEntry
  (entries.filter fun (entry, _) => min.atMost entry.score && entry.score.atMost max).map
    fun (entry, _) => (entry.member, if withScores then entry.score else .zero)

def zcount (set : SortedSet) (min max : Binary64) : Nat :=
  (set.zrangebyscore min max false).length

end SortedSet
end ScuffedRedis
