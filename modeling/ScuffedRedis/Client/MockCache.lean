import ScuffedRedis.Foundation.InsertionMap

/-!
# The mock backend

The in-memory cache that `redis.ts` falls back to. An expired entry is taken out by `redisGet`
alone. Each function that reads the clock takes `Date.now()` as an argument. A number is rational;
`round` gives the number that the engine has for an exact result.
-/
namespace ScuffedRedis

open Foundation

structure MockEntry where
  value : String
  expires : ℚ
  deriving DecidableEq

abbrev MockCache := InsertionMap String MockEntry

namespace MockCache

/-- A time to live of zero is as good as none: the entry then stays for an hour. -/
def expiresAt (round : ℚ → ℚ) (now : ℚ) : Option ℚ → ℚ
  | some ttl => if ttl ≠ 0 then round (now + round (ttl * 1000)) else round (now + 3600000)
  | none => round (now + 3600000)

def redisGet (cache : MockCache) (now : ℚ) (key : String) : Option String × MockCache :=
  match cache.get? key with
  | some entry =>
    if entry.expires > now then (some entry.value, cache) else (none, cache.delete key)
  | none => (none, cache.delete key)

def redisSet (round : ℚ → ℚ) (cache : MockCache) (now : ℚ) (key value : String)
    (ttl : Option ℚ) : MockCache :=
  cache.set key { value := value, expires := expiresAt round now ttl }

def redisDel (cache : MockCache) (key : String) : Nat × MockCache :=
  (if (cache.get? key).isSome then 1 else 0, cache.delete key)

def redisExists (cache : MockCache) (now : ℚ) (key : String) : Nat :=
  match cache.get? key with
  | some entry => if entry.expires > now then 1 else 0
  | none => 0

/-- For the pattern `*`. -/
def redisKeys (cache : MockCache) : List String := cache.keys

def redisDbsize (cache : MockCache) : Nat := cache.size

def redisFlushdb : MockCache := InsertionMap.empty

/-! ### Runs -/

inductive Call where
  | set (key value : String) (ttl : Option ℚ)
  | get (key : String)
  | del (key : String)
  | exists' (key : String)
  | keys
  | dbsize
  | flushdb

/-- The cache after a call at a time. -/
def after (round : ℚ → ℚ) (cache : MockCache) : ℚ × Call → MockCache
  | (now, .set key value ttl) => redisSet round cache now key value ttl
  | (now, .get key) => (redisGet cache now key).2
  | (_, .del key) => (redisDel cache key).2
  | (_, .flushdb) => redisFlushdb
  | (_, .exists' _) | (_, .keys) | (_, .dbsize) => cache

def run (round : ℚ → ℚ) (history : List (ℚ × Call)) : MockCache :=
  history.foldl (after round) InsertionMap.empty

end MockCache
end ScuffedRedis
