import ScuffedRedis.Client.MockCache

/-!
# Which keys the mock backend takes for live

`redisGet` and `redisExists` look at the expiry time of an entry, and the other functions do not.
They agree as long as no expired entry is left, which depends on what was read in time.
-/
namespace ScuffedRedis
namespace MockCache

open Foundation InsertionMap

/-- The functions agree on the keys that are live now. -/
structure OneLiveness (cache : MockCache) (now : ℚ) : Prop where
  keys : ∀ key, key ∈ cache.redisKeys ↔ cache.redisExists now key = 1
  get : ∀ key, cache.redisExists now key = 1 ↔ (cache.redisGet now key).1 ≠ none
  dbsize : cache.redisDbsize = Set.ncard {key | cache.redisExists now key = 1}
  del : ∀ key, (cache.redisDel key).1 = 1 ↔ cache.redisExists now key = 1

/-- The call leaves alone an entry of the key that is to expire at the deadline. A read at the
deadline or later takes it out. -/
def Spares (key : String) (deadline : ℚ) : ℚ × Call → Prop
  | (_, .set other _ _) => other ≠ key
  | (_, .del other) => other ≠ key
  | (now, .get other) => other = key → now < deadline
  | (_, .flushdb) => False
  | (_, .exists' _) | (_, .keys) | (_, .dbsize) => True

/-- The key was set for the last time with a deadline that has passed, and it was not read, deleted
or flushed since then. -/
def Stale (round : ℚ → ℚ) (history : List (ℚ × Call)) (now : ℚ) (key : String) : Prop :=
  ∃ before time value ttl after, history = before ++ (time, .set key value ttl) :: after ∧
    expiresAt round time ttl ≤ now ∧ ∀ call ∈ after, Spares key (expiresAt round time ttl) call

/-! ### One moment -/

section Moment

variable {cache : MockCache} {now : ℚ} {key : String}

theorem redisExists_iff :
    cache.redisExists now key = 1 ↔ ∃ entry, cache.get? key = some entry ∧ now < entry.expires := by
  rw [redisExists]
  cases cache.get? key with
  | none => simp
  | some entry => by_cases live : now < entry.expires <;> simp [live]

theorem redisGet_iff :
    (cache.redisGet now key).1 ≠ none ↔ cache.redisExists now key = 1 := by
  rw [redisExists_iff, redisGet]
  cases cache.get? key with
  | none => simp
  | some entry => by_cases live : now < entry.expires <;> simp [live]

theorem redisDel_iff : (cache.redisDel key).1 = 1 ↔ ∃ entry, cache.get? key = some entry := by
  rw [redisDel]
  cases cache.get? key <;> simp

/-- The functions agree exactly when every entry is live. -/
theorem oneLiveness_iff : OneLiveness cache now ↔
    ∀ key entry, cache.get? key = some entry → now < entry.expires := by
  constructor
  · intro one key entry stored
    -- The key is listed, so it exists, by its only entry.
    obtain ⟨other, found, live⟩ :=
      redisExists_iff.mp ((one.keys key).mp (mem_keys.mpr ⟨entry, stored⟩))
    rw [stored] at found
    cases found
    exact live
  · intro live
    have listed (key : String) : key ∈ cache.redisKeys ↔ cache.redisExists now key = 1 := by
      rw [redisKeys, mem_keys, redisExists_iff]
      exact exists_congr fun entry => ⟨fun stored => ⟨stored, live key entry stored⟩, And.left⟩
    refine ⟨listed, fun key => redisGet_iff.symm, ?_, fun key => ?_⟩
    · have same : {key | cache.redisExists now key = 1} = ↑cache.redisKeys.toFinset := by
        ext key
        simp [← listed]
      have distinct : cache.redisKeys.Nodup := cache.nodup
      rw [same, Set.ncard_coe_finset, List.toFinset_card_of_nodup distinct]
      exact (length_keys cache).symm
    · rw [redisDel_iff, ← listed, redisKeys, mem_keys]

end Moment

/-! ### Histories -/

section History

variable {round : ℚ → ℚ} {key : String} {entry : MockEntry}

theorem get?_redisGet {cache : MockCache} {now : ℚ} {other : String} :
    (cache.redisGet now other).2.get? key = some entry ↔
      cache.get? key = some entry ∧ (other = key → now < entry.expires) := by
  rw [redisGet]
  cases found : cache.get? other with
  | none =>
    -- Deleting what is not there changes nothing.
    rw [get?_delete]
    by_cases same : key = other
    · simp [same, found]
    · simp [same, Ne.symm same]
  | some older =>
    by_cases live : older.expires > now
    · simp only [if_pos live]
      constructor
      · intro stored
        refine ⟨stored, fun same => ?_⟩
        rw [← same, found] at stored
        cases stored
        exact live
      · exact And.left
    · -- The entry that was read has expired, and it is the one that is taken out.
      simp only [if_neg live, get?_delete]
      by_cases same : key = other
      · subst same
        simp only [if_true, found, reduceCtorEq, Option.some_inj, false_iff, not_and]
        rintro rfl
        exact fun early => live (early trivial)
      · simp [same, Ne.symm same]

/-- An entry after a call was written by it, or it was there and was spared. -/
theorem get?_after {cache : MockCache} {call : ℚ × Call} :
    (after round cache call).get? key = some entry ↔
      (∃ now ttl, call = (now, .set key entry.value ttl) ∧
        entry.expires = expiresAt round now ttl) ∨
      (cache.get? key = some entry ∧ Spares key entry.expires call) := by
  obtain ⟨now, call⟩ := call
  cases call with
  | set other value ttl =>
    rw [after, redisSet, get?_set]
    by_cases same : key = other
    · subst same
      obtain ⟨stored, expires⟩ := entry
      simp [Spares, eq_comm]
    · simp [Spares, same, Ne.symm same]
  | get other =>
    rw [after, get?_redisGet]
    simp [Spares]
  | del other =>
    rw [after, redisDel, get?_delete]
    by_cases same : key = other <;> simp [Spares, same, eq_comm]
  | flushdb => simp [after, redisFlushdb, Spares]
  | exists' | keys | dbsize => simp [after, Spares]

theorem get?_run {history : List (ℚ × Call)} :
    (run round history).get? key = some entry ↔
      ∃ before time ttl after, history = before ++ (time, .set key entry.value ttl) :: after ∧
        entry.expires = expiresAt round time ttl ∧
        ∀ call ∈ after, Spares key entry.expires call := by
  induction history using List.reverseRecOn with
  | nil => simp [run]
  | append_singleton history call ih =>
    rw [run, List.foldl_concat, get?_after]
    constructor
    · rintro (⟨time, ttl, rfl, expires⟩ | ⟨stored, spared⟩)
      · exact ⟨history, time, ttl, [], rfl, expires, by simp⟩
      · obtain ⟨before, time, ttl, rest, rfl, expires, each⟩ := ih.mp stored
        refine ⟨before, time, ttl, rest ++ [call], by simp, expires, ?_⟩
        rw [List.forall_mem_append]
        exact ⟨each, List.forall_mem_singleton.mpr spared⟩
    · rintro ⟨before, time, ttl, rest, split, expires, each⟩
      -- The last call is the one that set the key, or one that spared it.
      rcases List.eq_nil_or_concat rest with rfl | ⟨others, last, rfl⟩
      · obtain ⟨-, same⟩ := List.append_inj' split rfl
        exact .inl ⟨time, ttl, List.singleton_inj.mp same, expires⟩
      · have regrouped : history ++ [call] =
            (before ++ (time, .set key entry.value ttl) :: others) ++ [last] := by
          rw [split, List.concat_eq_append, List.append_assoc, List.cons_append]
        obtain ⟨rfl, same⟩ := List.append_inj' regrouped rfl
        obtain rfl := List.singleton_inj.mp same
        rw [List.concat_eq_append, List.forall_mem_append] at each
        exact .inr ⟨ih.mpr ⟨before, time, ttl, others, rfl, expires, each.1⟩,
          each.2 call List.mem_cons_self⟩

end History

/-- **The functions agree at a moment exactly when no key is stale then.** -/
theorem oneLiveness_run_iff (round : ℚ → ℚ) (history : List (ℚ × Call)) (now : ℚ) :
    OneLiveness (run round history) now ↔ ∀ key, ¬ Stale round history now key := by
  rw [oneLiveness_iff]
  constructor
  · rintro live key ⟨before, time, value, ttl, after, split, passed, spared⟩
    have stored : (run round history).get? key = some ⟨value, expiresAt round time ttl⟩ :=
      get?_run.mpr ⟨before, time, ttl, after, split, rfl, spared⟩
    exact absurd (live key _ stored) (not_lt.mpr passed)
  · intro fresh key entry stored
    obtain ⟨before, time, ttl, after, split, expires, spared⟩ := get?_run.mp stored
    rw [expires] at spared ⊢
    by_contra passed
    exact fresh key ⟨before, time, entry.value, ttl, after, split, not_lt.mp passed, spared⟩

/-- A key is set for a second, and the keys are listed a second later. -/
theorem stale_key_listed : ¬ ∀ (round : ℚ → ℚ) (history : List (ℚ × Call)) (now : ℚ),
    ((history.map Prod.fst) ++ [now]).Pairwise (· ≤ ·) →
      OneLiveness (run round history) now := by
  intro agree
  have one := agree id [(0, .set "k" "v" (some 1))] 1000 (by simp)
  have stored : (run id [(0, .set "k" "v" (some 1))]).get? "k" =
      some ⟨"v", expiresAt id 0 (some 1)⟩ := get?_run.mpr ⟨[], 0, some 1, [], rfl, rfl, by simp⟩
  have live := oneLiveness_iff.mp one "k" _ stored
  norm_num [expiresAt] at live

end MockCache
end ScuffedRedis
