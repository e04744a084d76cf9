import ScuffedRedis.Protocol.Message

/-!
# The hash table

Separate chaining with MurmurHash3 and doubling. A chain is the list of its nodes from
the bucket's head. `keys` filters with the glob matcher `matchesPattern`.
-/
namespace ScuffedRedis

/-! ### MurmurHash3 -/

namespace Murmur

def c1 : UInt32 := 0xcc9e2d51

def c2 : UInt32 := 0x1b873593

/-- The scrambling of a block that comes before it is mixed into the hash. -/
def scramble (k1 : UInt32) : UInt32 :=
  let k1 := k1 * c1
  let k1 := k1 <<< 15 ||| k1 >>> 17
  k1 * c2

def mixBlock (h1 k1 : UInt32) : UInt32 :=
  let h1 := h1 ^^^ scramble k1
  let h1 := h1 <<< 13 ||| h1 >>> 19
  h1 * 5 + 0xe6546b64

/-- A block as a little-endian machine reads it from memory. -/
def block (b0 b1 b2 b3 : UInt8) : UInt32 :=
  b0.toUInt32 ||| b1.toUInt32 <<< 8 ||| b2.toUInt32 <<< 16 ||| b3.toUInt32 <<< 24

/-- The hash after all whole blocks, and the tail of fewer than four bytes. -/
def mixBlocks (h1 : UInt32) : Bytes → UInt32 × Bytes
  | b0 :: b1 :: b2 :: b3 :: rest => mixBlocks (mixBlock h1 (block b0 b1 b2 b3)) rest
  | tail => (h1, tail)

/-- The `switch` with its fall-through cases. -/
def mixTail (h1 : UInt32) : Bytes → UInt32
  | [t0, t1, t2] => h1 ^^^ scramble (t2.toUInt32 <<< 16 ^^^ t1.toUInt32 <<< 8 ^^^ t0.toUInt32)
  | [t0, t1] => h1 ^^^ scramble (t1.toUInt32 <<< 8 ^^^ t0.toUInt32)
  | [t0] => h1 ^^^ scramble t0.toUInt32
  | _ => h1

def finalize (h1 : UInt32) (len : Nat) : UInt32 :=
  let h1 := h1 ^^^ UInt32.ofNat len
  let h1 := h1 ^^^ h1 >>> 16
  let h1 := h1 * 0x85ebca6b
  let h1 := h1 ^^^ h1 >>> 13
  let h1 := h1 * 0xc2b2ae35
  h1 ^^^ h1 >>> 16

end Murmur

/-- The `int` counters of the source are exact for keys of fewer than `2^31` bytes. -/
def murmur3_32 (key : Bytes) (seed : UInt32) : UInt32 :=
  let (h1, tail) := Murmur.mixBlocks seed key
  Murmur.finalize (Murmur.mixTail h1 tail) key.length

example : murmur3_32 (text "test") 0x9747b28c = 0x704b81dc := by decide

/-! ### Wildcard patterns -/

namespace Glob

def star : UInt8 := 0x2A

def questionMark : UInt8 := 0x3F

/-- The four indices of the loop; `starIdx` is `npos` until a star is seen. -/
structure State where
  strIdx : Nat
  patIdx : Nat
  starIdx : Option Nat
  matchIdx : Nat

/-- One iteration of the main loop, or nothing where it returns false. -/
def step (str pattern : Bytes) (g : State) : Option State :=
  if g.patIdx < pattern.length ∧ (pattern.getD g.patIdx 0 = str.getD g.strIdx 0 ∨
      pattern.getD g.patIdx 0 = questionMark) then
    some { g with strIdx := g.strIdx + 1, patIdx := g.patIdx + 1 }
  else if g.patIdx < pattern.length ∧ pattern.getD g.patIdx 0 = star then
    some { g with starIdx := some g.patIdx, patIdx := g.patIdx + 1, matchIdx := g.strIdx }
  else
    match g.starIdx with
    | some starIdx =>
      some { g with patIdx := starIdx + 1, matchIdx := g.matchIdx + 1, strIdx := g.matchIdx + 1 }
    | none => none

/-- How the main loop is left. -/
inductive Exit where
  | noMatch
  | done (patIdx : Nat)
  | outOfFuel

def loop (str pattern : Bytes) : Nat → State → Exit
  | 0, _ => .outOfFuel
  | fuel + 1, g =>
    if g.strIdx < str.length then
      match step str pattern g with
      | some next => loop str pattern fuel next
      | none => .noMatch
    else .done g.patIdx

/-- The index after the stars that the last loop skips. -/
def skipStars (pattern : Bytes) (patIdx : Nat) : Nat :=
  patIdx + ((pattern.drop patIdx).takeWhile (· == star)).length

/-- Between two backtracks the pattern index only grows, and each backtrack moves
`matchIdx` up. -/
def fuel (str pattern : Bytes) : Nat := (str.length + 2) * (pattern.length + 2)

end Glob

def matchesPattern (str pattern : Bytes) : Bool :=
  if pattern = [Glob.star] then true
  else
    match Glob.loop str pattern (Glob.fuel str pattern) ⟨0, 0, none, 0⟩ with
    | .done patIdx => decide (Glob.skipStars pattern patIdx = pattern.length)
    | _ => false

/-! ### The table -/

structure Node where
  key : Bytes
  value : Bytes
  deriving DecidableEq

structure HashTable where
  buckets : List (List Node)
  size : Nat

namespace HashTable

def minCapacity : UInt64 := 16

/-- The rounding loop of the constructor, in 64-bit arithmetic, within a number of
iterations. -/
def roundUp (initialCapacity : UInt64) : Nat → UInt64 → Option UInt64
  | 0, _ => none
  | fuel + 1, capacity =>
    if capacity < initialCapacity then roundUp initialCapacity fuel (capacity * 2)
    else some capacity

/-- The constructor, when its loop ends within `fuel` iterations. The vector of the buckets is
always allocated: neither `max_size` nor `bad_alloc` is modelled. -/
def construct (fuel : Nat) (initialCapacity : UInt64) : Option HashTable :=
  (roundUp initialCapacity fuel minCapacity).map fun capacity =>
    { buckets := List.replicate capacity.toNat [], size := 0 }

def hashSeed : UInt32 := 0x12345678

/-- The home bucket of a key among `capacity` buckets. -/
def bucketOf (capacity : Nat) (key : Bytes) : Nat := (murmur3_32 key hashSeed).toNat % capacity

def hash (table : HashTable) (key : Bytes) : Nat := bucketOf table.buckets.length key

def chain (buckets : List (List Node)) (bucket : Nat) : List Node := buckets.getD bucket []

/-- The first node of a chain with this key, with the nodes before and after it. -/
def findInChain (key : Bytes) : List Node → Option (List Node × Node × List Node)
  | [] => none
  | node :: rest =>
    if node.key = key then some ([], node, rest)
    else (findInChain key rest).map fun (before, found, after) => (node :: before, found, after)

def findInBucket (table : HashTable) (bucket : Nat) (key : Bytes) :
    Option (List Node × Node × List Node) :=
  findInChain key (chain table.buckets bucket)

/-- Puts a node at the head of its home chain. -/
def pushNode (capacity : Nat) (buckets : List (List Node)) (node : Node) : List (List Node) :=
  let bucket := bucketOf capacity node.key
  buckets.set bucket (node :: chain buckets bucket)

/-- Moves every node, bucket by bucket, to twice as many buckets. A vector is far too
short for its doubled size to leave 64 bits. -/
def resize (table : HashTable) : HashTable :=
  let newCapacity := table.buckets.length * 2
  { table with
    buckets := table.buckets.foldl
      (fun newBuckets bucket => bucket.foldl (pushNode newCapacity) newBuckets)
      (List.replicate newCapacity []) }

/-- `load_factor() > MAX_LOAD_FACTOR`, that is `size_ / buckets > 3 / 4`, and no buckets have
load 0. The division by a power of two is exact below `2^53`. -/
def overloaded (table : HashTable) : Bool :=
  decide (table.buckets ≠ [] ∧ 3 * table.buckets.length < 4 * table.size)

def set (table : HashTable) (key value : Bytes) : Bool × HashTable :=
  let table := if table.overloaded then table.resize else table
  let bucket := table.hash key
  match table.findInBucket bucket key with
  | some (before, node, after) =>
    (false, { table with
      buckets := table.buckets.set bucket (before ++ { node with value := value } :: after) })
  | none =>
    (true, { buckets := table.buckets.set bucket (⟨key, value⟩ :: chain table.buckets bucket),
             size := table.size + 1 })

def get (table : HashTable) (key : Bytes) : Option Bytes :=
  (table.findInBucket (table.hash key) key).map fun (_, node, _) => node.value

def del (table : HashTable) (key : Bytes) : Bool × HashTable :=
  let bucket := table.hash key
  match table.findInBucket bucket key with
  | some (before, _, after) =>
    (true, { buckets := table.buckets.set bucket (before ++ after), size := table.size - 1 })
  | none => (false, table)

def exists' (table : HashTable) (key : Bytes) : Bool :=
  (table.findInBucket (table.hash key) key).isSome

def clear (table : HashTable) : HashTable :=
  { buckets := table.buckets.map fun _ => [], size := 0 }

/-- The matching keys in bucket order. -/
def keys (table : HashTable) (pattern : Bytes) : List Bytes :=
  table.buckets.flatMap fun bucket =>
    (bucket.map Node.key).filter fun key => matchesPattern key pattern

end HashTable
end ScuffedRedis
