import ScuffedRedis.Protocol.Message
import ScuffedRedis.Foundation.BinaryHeap

/-!
# The TTL manager

A heap of expiry times with two maps from keys, to their index in the heap and to the id of
their entry. Times are 64-bit counts of nanoseconds. A clock reading is an argument of the
operations that take one. Every public operation holds `mutex_`, which is not recursive.
-/
namespace ScuffedRedis

open Foundation

structure TTLEntry where
  key : Bytes
  expireTime : Int64
  id : UInt64
  deriving DecidableEq

structure TTLManager where
  expirationHeap : List TTLEntry
  keyToIndex : Bytes → Option Nat
  keyToId : Bytes → Option UInt64
  nextId : UInt64
  totalExpired : Nat
  mutexHeld : Bool

/-- How a call ends. A second lock of the held mutex never returns; an index outside the heap
is undefined behaviour. -/
inductive Outcome (α : Type) where
  | returned (result : α) (manager : TTLManager)
  | blocked
  | outOfRange

/-- The manager after a call that returns. -/
def Outcome.manager? {α : Type} : Outcome α → Option TTLManager
  | returned _ manager => some manager
  | _ => none

namespace TTLManager

def initial : TTLManager where
  expirationHeap := []
  keyToIndex := fun _ => none
  keyToId := fun _ => none
  nextId := 1
  totalExpired := 0
  mutexHeld := false

/-- `std::lock_guard` around the body of an operation. -/
def locked {α : Type} (manager : TTLManager) (body : TTLManager → Outcome α) : Outcome α :=
  if manager.mutexHeld then .blocked
  else
    match body { manager with mutexHeld := true } with
    | .returned result last => .returned result { last with mutexHeld := false }
    | .blocked => .blocked
    | .outOfRange => .outOfRange

/-! ### Heap operations -/

/-- The expiry time at an index of the heap. -/
def expiryAt (heap : List TTLEntry) (index : Nat) : Int64 :=
  (heap[index]?.map TTLEntry.expireTime).getD 0

/-- The callers only pass indices inside the heap. -/
def swapEntries (manager : TTLManager) (i j : Nat) : TTLManager :=
  if i = j then manager
  else
    match manager.expirationHeap[i]?, manager.expirationHeap[j]? with
    | some first, some second =>
      { manager with
        expirationHeap := (manager.expirationHeap.set i second).set j first
        keyToIndex := Function.update (Function.update manager.keyToIndex second.key (some i))
          first.key (some j) }
    | _, _ => manager

/-- The loop of `heapify_up`; the index falls with every iteration. -/
def heapifyUpLoop : Nat → TTLManager → Nat → TTLManager
  | 0, manager, _ => manager
  | fuel + 1, manager, index =>
    if index = 0 then manager
    else if expiryAt manager.expirationHeap index >
        expiryAt manager.expirationHeap (parent index) then manager
    else heapifyUpLoop fuel (manager.swapEntries index (parent index)) (parent index)

def heapifyUp (manager : TTLManager) (index : Nat) : TTLManager :=
  heapifyUpLoop index manager index

/-- The child that `heapify_down` calls `smallest`, or the index itself. -/
def smallest (heap : List TTLEntry) (index : Nat) : Nat :=
  let leftChild := 2 * index + 1
  let rightChild := 2 * index + 2
  let smallest := index
  let smallest :=
    if leftChild < heap.length ∧ expiryAt heap leftChild > expiryAt heap smallest then leftChild
    else smallest
  if rightChild < heap.length ∧ expiryAt heap rightChild > expiryAt heap smallest then rightChild
  else smallest

/-- The loop of `heapify_down`; the index grows with every iteration. -/
def heapifyDownLoop : Nat → TTLManager → Nat → TTLManager
  | 0, manager, _ => manager
  | fuel + 1, manager, index =>
    if smallest manager.expirationHeap index = index then manager
    else
      heapifyDownLoop fuel (manager.swapEntries index (smallest manager.expirationHeap index))
        (smallest manager.expirationHeap index)

def heapifyDown (manager : TTLManager) (index : Nat) : TTLManager :=
  heapifyDownLoop (manager.expirationHeap.length - index) manager index

/-- `pop_back` and the erasure of the popped key from both maps. -/
def popEntry (manager : TTLManager) : TTLManager :=
  match manager.expirationHeap.getLast? with
  | some removed =>
    { manager with
      expirationHeap := manager.expirationHeap.dropLast
      keyToIndex := Function.update manager.keyToIndex removed.key none
      keyToId := Function.update manager.keyToId removed.key none }
  | none => manager

def removeFromHeap (manager : TTLManager) (index : Nat) : TTLManager :=
  if index ≥ manager.expirationHeap.length then manager
  else
    let lastIndex := manager.expirationHeap.length - 1
    if index ≠ lastIndex then
      let manager := (manager.swapEntries index lastIndex).popEntry
      if manager.expirationHeap ≠ [] then (manager.heapifyUp index).heapifyDown index
      else manager
    else manager.popEntry

/-! ### Operations -/

def removeTtl (manager : TTLManager) (key : Bytes) : Outcome Bool :=
  manager.locked fun manager =>
    match manager.keyToIndex key with
    | none => .returned false manager
    | some index => .returned true (manager.removeFromHeap index)

/-- What `set_ttl` and `set_ttl_ms` do once they know the expiry time. -/
def storeExpiry (manager : TTLManager) (key : Bytes) (expireTime : Int64) : Outcome Bool :=
  let id := manager.nextId
  let manager := { manager with nextId := manager.nextId + 1 }
  match manager.keyToIndex key with
  | some index =>
    if index < manager.expirationHeap.length then
      let manager :=
        { manager with
          expirationHeap := manager.expirationHeap.modify index fun entry =>
            { entry with expireTime := expireTime, id := id }
          keyToId := Function.update manager.keyToId key (some id) }
      .returned true ((manager.heapifyUp index).heapifyDown index)
    else .outOfRange
  | none =>
    let index := manager.expirationHeap.length
    let manager :=
      { manager with
        expirationHeap := manager.expirationHeap ++ [TTLEntry.mk key expireTime id]
        keyToIndex := Function.update manager.keyToIndex key (some index)
        keyToId := Function.update manager.keyToId key (some id) }
    .returned true (manager.heapifyUp index)

def calculateExpireTime (now seconds : Int64) : Int64 := now + seconds * 1000000000

def calculateExpireTimeMs (now milliseconds : Int64) : Int64 := now + milliseconds * 1000000

/-- The removal calls the public `remove_ttl`, which locks again. -/
def setTtl (manager : TTLManager) (now : Int64) (key : Bytes) (seconds : Int64) : Outcome Bool :=
  manager.locked fun manager =>
    if seconds ≤ 0 then manager.removeTtl key
    else manager.storeExpiry key (calculateExpireTime now seconds)

def setTtlMs (manager : TTLManager) (now : Int64) (key : Bytes) (milliseconds : Int64) :
    Outcome Bool :=
  manager.locked fun manager =>
    if milliseconds ≤ 0 then manager.removeTtl key
    else manager.storeExpiry key (calculateExpireTimeMs now milliseconds)

/-- The part that `get_ttl` and `get_ttl_ms` share, for a unit of so many nanoseconds. -/
def remaining (manager : TTLManager) (now : Int64) (key : Bytes) (unit : Int64) : Outcome Int64 :=
  manager.locked fun manager =>
    match manager.keyToIndex key with
    | none => .returned (-1) manager
    | some index =>
      match manager.expirationHeap[index]? with
      | none => .outOfRange
      | some entry =>
        if entry.expireTime ≤ now then .returned (-2) manager
        else .returned ((entry.expireTime - now) / unit) manager

def getTtl (manager : TTLManager) (now : Int64) (key : Bytes) : Outcome Int64 :=
  manager.remaining now key 1000000000

def getTtlMs (manager : TTLManager) (now : Int64) (key : Bytes) : Outcome Int64 :=
  manager.remaining now key 1000000

def hasTtl (manager : TTLManager) (key : Bytes) : Outcome Bool :=
  manager.locked fun manager => .returned (manager.keyToIndex key).isSome manager

/-- The loop of `check_expirations`: the keys that expire, in the order of their callbacks.
Every iteration takes one entry out of the heap. -/
def expireLoop (now : Int64) : Nat → TTLManager → List Bytes × TTLManager
  | 0, manager => ([], manager)
  | fuel + 1, manager =>
    match manager.expirationHeap with
    | [] => ([], manager)
    | top :: _ =>
      if top.expireTime > now then ([], manager)
      else
        let removed := manager.removeFromHeap 0
        let (expired, last) :=
          expireLoop now fuel { removed with totalExpired := removed.totalExpired + 1 }
        (top.key :: expired, last)

/-- The returned count, and the keys the callback is called with. -/
def checkExpirations (manager : TTLManager) (now : Int64) : Outcome (Nat × List Bytes) :=
  manager.locked fun manager =>
    let (expired, last) := expireLoop now manager.expirationHeap.length manager
    .returned (expired.length, expired) last

def size (manager : TTLManager) : Outcome Nat :=
  manager.locked fun manager => .returned manager.expirationHeap.length manager

def clear (manager : TTLManager) : Outcome Unit :=
  manager.locked fun manager =>
    .returned ()
      { manager with
        expirationHeap := []
        keyToIndex := fun _ => none
        keyToId := fun _ => none }

structure Stats where
  totalTtlEntries : Nat
  expiredThisCheck : Nat
  totalExpired : Nat
  averageTtlSeconds : Float

/-- The whole seconds that an entry has left as a `double`, and `0.0` when it has expired. -/
def secondsLeft (now : Int64) (entry : TTLEntry) : Float :=
  let remaining := ((entry.expireTime - now) / 1000000000).toFloat
  if (0.0 : Float) < remaining then remaining else 0.0

def getStats (manager : TTLManager) (now : Int64) : Outcome Stats :=
  manager.locked fun manager =>
    .returned
      { totalTtlEntries := manager.expirationHeap.length
        expiredThisCheck := 0
        totalExpired := manager.totalExpired
        averageTtlSeconds :=
          if manager.expirationHeap ≠ [] then
            manager.expirationHeap.foldl (fun total entry => total + secondsLeft now entry) 0.0 /
              Float.ofNat manager.expirationHeap.length
          else 0.0 }
      manager

/-! ### Runs -/

inductive Op where
  | setTtl (now : Int64) (key : Bytes) (seconds : Int64)
  | setTtlMs (now : Int64) (key : Bytes) (milliseconds : Int64)
  | getTtl (now : Int64) (key : Bytes)
  | getTtlMs (now : Int64) (key : Bytes)
  | hasTtl (key : Bytes)
  | removeTtl (key : Bytes)
  | checkExpirations (now : Int64)
  | size
  | clear

/-- The manager after an operation, when it returns. -/
def next (manager : TTLManager) : Op → Option TTLManager
  | .setTtl now key seconds => (manager.setTtl now key seconds).manager?
  | .setTtlMs now key milliseconds => (manager.setTtlMs now key milliseconds).manager?
  | .getTtl now key => (manager.getTtl now key).manager?
  | .getTtlMs now key => (manager.getTtlMs now key).manager?
  | .hasTtl key => (manager.hasTtl key).manager?
  | .removeTtl key => (manager.removeTtl key).manager?
  | .checkExpirations now => (manager.checkExpirations now).manager?
  | .size => manager.size.manager?
  | .clear => manager.clear.manager?

/-- The manager after a run of operations that all return. -/
def run (manager : TTLManager) (ops : List Op) : Option TTLManager := ops.foldlM next manager

end TTLManager
end ScuffedRedis
