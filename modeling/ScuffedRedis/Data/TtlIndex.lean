import ScuffedRedis.Data.TtlContents

/-!
# The index maps of the TTL manager

Both maps know exactly the keys of the heap. Ids come from a counter of 64 bits, so they stay
distinct while fewer than `2 ^ 64` are issued; the counter itself is back at zero once all but
one of its values are used.
-/
namespace ScuffedRedis
namespace TTLManager

open Foundation

/-- Whether an operation with a positive duration issues an id. -/
def Op.issues : Op → Bool
  | .setTtl .. | .setTtlMs .. => true
  | _ => false

/-- The number of ids that a run issues. -/
def issued (ops : List Op) : Nat := ops.countP Op.issues

/-- The maps invert the array of the heap. -/
structure Inverse (manager : TTLManager) : Prop where
  distinct : (manager.expirationHeap.map TTLEntry.key).Nodup
  indexKeys : ∀ key, (manager.keyToIndex key).isSome = true ↔
    key ∈ manager.expirationHeap.map TTLEntry.key
  idKeys : ∀ key, (manager.keyToId key).isSome = true ↔
    key ∈ manager.expirationHeap.map TTLEntry.key
  entry : ∀ key index, manager.keyToIndex key = some index → ∃ entry,
    manager.expirationHeap[index]? = some entry ∧ entry.key = key ∧
      manager.keyToId key = some entry.id

theorem Coupled.inverse {manager : TTLManager} (coupled : Coupled manager) : Inverse manager := by
  have entry : ∀ key index, manager.keyToIndex key = some index → ∃ entry,
      manager.expirationHeap[index]? = some entry ∧ entry.key = key ∧
        manager.keyToId key = some entry.id := by
    intro key index found
    obtain ⟨entry, present, named⟩ := coupled.entry found
    refine ⟨entry, present, named, ?_⟩
    rw [coupled.identified, found, Option.bind_some, present]
    rfl
  have indexKeys : ∀ key, (manager.keyToIndex key).isSome = true ↔
      key ∈ manager.expirationHeap.map TTLEntry.key := by
    intro key
    rw [Option.isSome_iff_exists, List.mem_map]
    constructor
    · rintro ⟨index, found⟩
      obtain ⟨entry, present, named⟩ := coupled.entry found
      exact ⟨entry, List.mem_of_getElem? present, named⟩
    · rintro ⟨entry, listed, rfl⟩
      obtain ⟨index, found, -⟩ := coupled.mem_iff.mp listed
      exact ⟨index, found⟩
  refine ⟨coupled.distinct, indexKeys, fun key => ?_, entry⟩
  -- An index has an entry, and the entry has an ID.
  rw [← indexKeys, coupled.identified]
  cases found : manager.keyToIndex key with
  | none => rfl
  | some index =>
    obtain ⟨entry, present, -⟩ := coupled.entry found
    rw [Option.bind_some, present]
    exact Iff.rfl

/-! ### Ids -/

/-- After so many ids have been issued: the heap has some of them, each once. -/
structure Numbered (count : Nat) (manager : TTLManager) : Prop where
  nextId : manager.nextId = UInt64.ofNat (count + 1)
  issued : ∀ entry ∈ manager.expirationHeap, entry.id.toNat ≤ count
  distinct : (manager.expirationHeap.map TTLEntry.id).Nodup

theorem Numbered.initial : Numbered 0 initial := ⟨rfl, by simp [TTLManager.initial], by
  simp [TTLManager.initial]⟩

section Numbered

variable {count : Nat} {manager other : TTLManager} (numbered : Numbered count manager)

include numbered

/-- Some of the entries, in another order. -/
theorem Numbered.subperm (fewer : other.expirationHeap.Subperm manager.expirationHeap)
    (same : other.nextId = manager.nextId) : Numbered count other := by
  refine ⟨same.trans numbered.nextId, fun entry listed => ?_, ?_⟩
  · exact numbered.issued entry (fewer.subset listed)
  · obtain ⟨kept, reordered, sublist⟩ := fewer
    have distinct := numbered.distinct.sublist (sublist.map TTLEntry.id)
    exact (reordered.map TTLEntry.id).nodup_iff.mp distinct

theorem Numbered.stored {key : Bytes} {expireTime : Int64}
    (stored : Stored manager key expireTime other)
    (few : count + 1 < 2 ^ 64) : Numbered (count + 1) other := by
  -- The counter has not wrapped, so the new id is above all the older ones.
  have new : (UInt64.ofNat (count + 1)).toNat = count + 1 := UInt64.toNat_ofNat_of_lt' few
  have kept := numbered.distinct.sublist
    ((List.filter_sublist (p := fun entry : TTLEntry => entry.key ≠ key)).map TTLEntry.id)
  constructor
  · rw [stored.nextId, numbered.nextId]
    exact (UInt64.ofNat_add (count + 1) 1).symm
  · intro entry listed
    rcases List.mem_cons.mp (stored.entries.mem_iff.mp listed) with rfl | older
    · rw [numbered.nextId, new]
    · exact (numbered.issued entry (List.mem_of_mem_filter older)).trans (Nat.le_succ count)
  · have order := (stored.entries.map TTLEntry.id).nodup_iff
    rw [order, List.map_cons, List.nodup_cons]
    refine ⟨fun listed => ?_, kept⟩
    obtain ⟨entry, older, same⟩ := List.mem_map.mp listed
    have bound := numbered.issued entry (List.mem_of_mem_filter older)
    rw [same, numbered.nextId, new] at bound
    exact absurd bound (Nat.not_succ_le_self count)

end Numbered

theorem next_eq_step (manager : TTLManager) (op : Op) :
    manager.next op = (manager.step op).map Prod.snd := by
  have both {α : Type} (form : α → Answer) (outcome : Outcome α) :
      outcome.manager? = (answered form outcome).map Prod.snd := by
    cases outcome <;> rfl
  cases op <;> exact both _ _

theorem next_of_step {manager other : TTLManager} {op : Op} {answer : Answer}
    (stepped : manager.step op = some (answer, other)) : manager.next op = some other := by
  rw [next_eq_step, stepped]
  rfl

theorem Effected.numbered {count : Nat} {manager other : TTLManager} {op : Op} {answer : Answer}
    (effected : Effected manager op answer other) (numbered : Numbered count manager)
    (few : count + issued [op] < 2 ^ 64) : Numbered (count + issued [op]) other := by
  -- Removals and sweeps leave some of the entries, in some order.
  have fewer {key : Bytes} (dropped : Dropped manager key other) : Numbered count other :=
    numbered.subperm (dropped.entries.subperm.trans (List.filter_sublist).subperm) dropped.nextId
  cases op with
  | setTtl now key seconds => exact numbered.stored effected.2 few
  | setTtlMs now key milliseconds => exact numbered.stored effected.2 few
  | getTtl now key => exact effected.2 ▸ numbered
  | getTtlMs now key => exact effected.2 ▸ numbered
  | hasTtl key => exact effected.2 ▸ numbered
  | removeTtl key => exact fewer effected.2
  | checkExpirations now =>
    obtain ⟨callbacks, -, ⟨gone, reordered, -⟩, nextId⟩ := effected
    exact numbered.subperm ((List.sublist_append_right gone _).subperm.trans reordered.symm.subperm)
      nextId
  | size => exact effected.2 ▸ numbered
  | clear =>
    apply numbered.subperm _ effected.2.2
    rw [effected.2.1]
    exact List.nil_subperm

/-! ### Runs -/

theorem issued_cons (op : Op) (ops : List Op) : issued (op :: ops) = issued [op] + issued ops := by
  rw [issued, issued, issued, ← List.countP_append]
  rfl

theorem run_numbered {count : Nat} {manager : TTLManager} (ready : Ready manager)
    (numbered : Numbered count manager) {ops : List Op} (positive : ∀ op ∈ ops, op.Positive)
    (few : count + issued ops < 2 ^ 64) :
    ∃ last, manager.run ops = some last ∧ Ready last ∧ Numbered (count + issued ops) last := by
  induction ops generalizing manager count with
  | nil => exact ⟨manager, rfl, ready, numbered⟩
  | cons op ops ih =>
    rw [List.forall_mem_cons] at positive
    rw [issued_cons, ← Nat.add_assoc] at few ⊢
    obtain ⟨answer, other, stepped, ready', effected⟩ := step_spec ready op positive.1
    have numbered' := effected.numbered numbered (by omega)
    rw [run_cons (next_of_step stepped)]
    exact ih ready' numbered' positive.2 few

/-- **The maps invert the heap.** Every state that operations with positive durations reach has
exact index maps. While fewer than `2 ^ 64` ids are issued they are distinct, and they are below the
counter as long as it has not come round to zero. -/
theorem run_inverse (ops : List Op) (positive : ∀ op ∈ ops, op.Positive) :
    ∃ manager, initial.run ops = some manager ∧ Inverse manager ∧
      (issued ops < 2 ^ 64 → (manager.expirationHeap.map TTLEntry.id).Nodup) ∧
      (issued ops + 1 < 2 ^ 64 → ∀ entry ∈ manager.expirationHeap, entry.id < manager.nextId) := by
  obtain ⟨manager, reached, ready⟩ := run_ready .initial ops positive
  have counted (few : issued ops < 2 ^ 64) : Numbered (issued ops) manager := by
    obtain ⟨last, reached', -, numbered⟩ :=
      run_numbered .initial .initial positive (by rw [Nat.zero_add]; exact few)
    rw [Nat.zero_add] at numbered
    obtain rfl := Option.some.inj (reached.symm.trans reached')
    exact numbered
  refine ⟨manager, reached, ready.coupled.inverse, fun few => (counted few).distinct,
    fun left entry listed => ?_⟩
  have numbered := counted (Nat.lt_of_succ_lt left)
  have counter : manager.nextId.toNat = issued ops + 1 := by
    rw [numbered.nextId]
    exact UInt64.toNat_ofNat_of_lt' left
  rw [UInt64.lt_iff_toNat_lt, counter]
  exact Nat.lt_succ_of_le (numbered.issued entry listed)

/-- A key is set again, another one is removed, and a third one stays. -/
theorem run_inverse_removed :
    ∃ manager, initial.run [.setTtl 0 (text "a") 1, .setTtl 0 (text "b") 2, .setTtl 0 (text "c") 3,
        .setTtlMs 0 (text "a") 5, .removeTtl (text "b")] = some manager ∧
      Inverse manager ∧
      (issued [.setTtl 0 (text "a") 1, .setTtl 0 (text "b") 2, .setTtl 0 (text "c") 3,
          .setTtlMs 0 (text "a") 5, .removeTtl (text "b")] < 2 ^ 64 →
        (manager.expirationHeap.map TTLEntry.id).Nodup) ∧
      (issued [.setTtl 0 (text "a") 1, .setTtl 0 (text "b") 2, .setTtl 0 (text "c") 3,
          .setTtlMs 0 (text "a") 5, .removeTtl (text "b")] + 1 < 2 ^ 64 →
        ∀ entry ∈ manager.expirationHeap, entry.id < manager.nextId) :=
  run_inverse [.setTtl 0 (text "a") 1, .setTtl 0 (text "b") 2, .setTtl 0 (text "c") 3,
    .setTtlMs 0 (text "a") 5, .removeTtl (text "b")] (by decide)

theorem issued_replicate (count : Nat) :
    issued (List.replicate count (.setTtl 0 (text "a") 1)) = count := by
  rw [issued, List.countP_replicate]
  rfl

theorem positive_replicate (count : Nat) :
    ∀ op ∈ List.replicate count (Op.setTtl 0 (text "a") 1), op.Positive := by
  intro op listed
  rw [List.eq_of_mem_replicate listed]
  decide

/-- A key set again and again: the counter names the next of so many ids, and the key is there. -/
theorem run_replicate {count : Nat} (few : count + 1 < 2 ^ 64) {manager : TTLManager}
    (reached : initial.run (List.replicate (count + 1) (.setTtl 0 (text "a") 1)) = some manager) :
    manager.nextId = UInt64.ofNat (count + 2) ∧ manager.expirationHeap ≠ [] := by
  -- All but the last step only issue ids; the last one is looked at itself.
  obtain ⟨middle, before, ready, numbered⟩ :=
    run_numbered .initial .initial (positive_replicate count) (by rw [issued_replicate]; omega)
  obtain ⟨answer, last, stepped, -, effected⟩ :=
    step_spec ready (.setTtl 0 (text "a") 1) (by decide)
  rw [List.replicate_succ', run, List.foldlM_append] at reached
  change (initial.run _).bind _ = _ at reached
  rw [before, Option.bind_some, List.foldlM_cons, next_of_step stepped] at reached
  obtain rfl : last = manager := Option.some.inj reached
  have final := effected.numbered numbered
    (by rw [issued_replicate, issued]; simp [Op.issues]; omega)
  constructor
  · rw [final.nextId, issued_replicate, Nat.zero_add]
    rfl
  · intro nothing
    have stored := effected.2.entries
    rw [nothing] at stored
    exact List.cons_ne_nil _ _ stored.symm.eq_nil

/-- All ids but zero have been issued, and the counter is at zero. -/
theorem counter_wraps : ¬ ∀ ops : List Op, (∀ op ∈ ops, op.Positive) → issued ops < 2 ^ 64 →
    ∃ manager, initial.run ops = some manager ∧ Inverse manager ∧
      (manager.expirationHeap.map TTLEntry.id).Nodup ∧
      ∀ entry ∈ manager.expirationHeap, entry.id < manager.nextId := by
  intro always
  obtain ⟨manager, reached, -, -, below⟩ :=
    always (List.replicate (2 ^ 64 - 2 + 1) (.setTtl 0 (text "a") 1)) (positive_replicate _)
      (by rw [issued_replicate]; omega)
  obtain ⟨counter, nonempty⟩ := run_replicate (by omega) reached
  obtain ⟨entry, listed⟩ := List.exists_mem_of_ne_nil _ nonempty
  have small := below entry listed
  rw [counter, UInt64.lt_iff_toNat_lt] at small
  exact absurd small (Nat.not_lt_zero _)

end TTLManager
end ScuffedRedis
