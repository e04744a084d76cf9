import ScuffedRedis.Data.TtlRuns

/-!
# When the TTL array is a min-heap

New keys are sifted up as they should be. An update or a removal also runs `heapify_down`,
which lifts later expiry times: it leaves a heap only where it has nothing to lift. The
condition is stated on the array before the operation.
-/
namespace ScuffedRedis
namespace TTLManager

open Foundation

/-- The array is a min-heap by expiry time. -/
def HeapOrdered (heap : List TTLEntry) : Prop := IsHeap heap.length (expiryAt heap)

/-- In an array of `n` values, every child of the index has the value that a sift-up leaves at
the index when `expireTime` is put there. In particular there may be no children. -/
def Undisturbed (n : Nat) (val : Nat → Int64) (index : Nat) (expireTime : Int64) : Prop :=
  ∀ c, 0 < c → c < n → parent c = index → val c = settledAt val index expireTime

/-- The entry at the index is the last one, or the last one can take its place. -/
def HarmlessRemoval (heap : List TTLEntry) (index : Nat) : Prop :=
  index = heap.length - 1 ∨
    Undisturbed (heap.length - 1) (expiryAt heap.dropLast) index
      (expiryAt heap (heap.length - 1))

/-- The condition on a change, and on the array before it. -/
def Harmless (manager : TTLManager) : Change → Prop
  | .kept | .appended _ | .cleared => True
  | .updated index expireTime =>
    Undisturbed manager.expirationHeap.length (expiryAt manager.expirationHeap) index expireTime
  | .removed index => HarmlessRemoval manager.expirationHeap index
  | .swept now =>
    (∀ entry ∈ manager.expirationHeap, now < entry.expireTime) ∨ AllDue manager now ∨
      (OnlyRootDue manager now ∧ HarmlessRemoval manager.expirationHeap 0)

/-! ### Arrays -/

theorem HeapOrdered.nil : HeapOrdered [] := fun i _ inRange => absurd inRange (Nat.not_lt_zero i)

theorem HeapOrdered.root_le {heap : List TTLEntry} (ordered : HeapOrdered heap) {top : TTLEntry}
    (first : top ∈ heap.head?) : ∀ entry ∈ heap, top.expireTime ≤ entry.expireTime := by
  intro entry member
  obtain ⟨i, inRange, rfl⟩ := List.mem_iff_getElem.mp member
  have atRoot : heap[0]? = some top := by
    rw [← List.head?_eq_getElem?]
    exact first
  have order := IsHeap.root_le ordered inRange
  rw [expiryAt_eq atRoot, expiryAt_eq (List.getElem?_eq_getElem inRange)] at order
  exact order

/-- A heap whose root is not due has no due entry. -/
theorem HeapOrdered.later {heap : List TTLEntry} (ordered : HeapOrdered heap) {now : Int64}
    (stopped : ∀ top ∈ heap.head?, now < top.expireTime) :
    ∀ entry ∈ heap, now < entry.expireTime := by
  intro entry member
  cases heap with
  | nil => cases member
  | cons top rest => exact (stopped top rfl).trans_le (ordered.root_le rfl entry member)

theorem HeapOrdered.dropLast {heap : List TTLEntry} (ordered : HeapOrdered heap) :
    IsHeap (heap.length - 1) (expiryAt heap.dropLast) := by
  have agree : ∀ i < heap.length - 1, expiryAt heap.dropLast i = expiryAt heap i := by
    intro i inRange
    rw [expiryAt, List.getElem?_dropLast, if_pos inRange, expiryAt]
  rw [IsHeap.congr agree]
  intro i positive inRange
  exact ordered i positive (by omega)

/-- A new entry at the end of a heap is the only one that may be out of place. -/
theorem HeapOrdered.append {heap : List TTLEntry} (ordered : HeapOrdered heap) (entry : TTLEntry) :
    HeapButFor (heap.length + 1) (expiryAt (heap ++ [entry])) heap.length := by
  have agree : ∀ i < heap.length, expiryAt (heap ++ [entry]) i = expiryAt heap i := by
    intro i inRange
    rw [expiryAt, List.getElem?_append_left inRange, expiryAt]
  constructor
  · intro i positive inRange notNew
    have old : i < heap.length := by omega
    rw [agree i old, agree _ ((parent_lt positive).trans old)]
    exact ordered i positive old
  · intro i positive inRange child
    have := parent_lt positive
    omega

/-! ### One change -/

section Step

variable {manager other : TTLManager}

theorem removedExpiry_isHeap_iff {heap : List TTLEntry} (ordered : HeapOrdered heap) {index : Nat}
    (inRange : index < heap.length) :
    IsHeap (heap.length - 1) (removedExpiry heap index) ↔ HarmlessRemoval heap index := by
  rw [removedExpiry, HarmlessRemoval]
  split
  next isLast => exact ⟨fun _ => .inl isLast, fun _ => ordered.dropLast⟩
  next notLast =>
    rw [isHeap_resift_iff ordered.dropLast (by omega)]
    exact ⟨.inr, fun harmless => harmless.resolve_left notLast⟩

theorem expireRoot_ordered_iff (coupled : Coupled manager)
    (ordered : HeapOrdered manager.expirationHeap) {top : TTLEntry} {rest : List TTLEntry}
    (heap : manager.expirationHeap = top :: rest) :
    HeapOrdered manager.expireRoot.expirationHeap ↔ HarmlessRemoval manager.expirationHeap 0 := by
  have present : manager.expirationHeap[0]? = some top := by rw [heap]; rfl
  have inRange := (List.getElem?_eq_some_iff.mp present).1
  obtain ⟨removed, expiry⟩ := removeFromHeap_spec coupled present
  have length := removed.length_eq
  rw [← removedExpiry_isHeap_iff ordered inRange, ← expiry, length, Nat.add_sub_cancel]
  rfl

/-- A sweep leaves a heap exactly when nothing, everything, or just the root is due, and the
root can be removed without harm. -/
theorem leftBySweep_ordered_iff (coupled : Coupled manager)
    (ordered : HeapOrdered manager.expirationHeap) (now : Int64) :
    HeapOrdered (leftBySweep manager now) ↔ Harmless manager (.swept now) := by
  have held := coupled.withMutex true
  have stopped : ∀ top ∈ (leftBySweep manager now).head?, now < top.expireTime :=
    (expireLoop_swept now held (le_refl _)).stopped
  rcases leftBySweep_cases coupled now with
    ⟨later, same⟩ | ⟨top, rest, heap, due, ⟨same, perm⟩ | empty | ⟨entry, kept, left, early⟩⟩
  · rw [same]
    exact ⟨fun _ => .inl (ordered.later later), fun _ => ordered⟩
  · have removal : HeapOrdered (leftBySweep manager now) ↔
        HarmlessRemoval manager.expirationHeap 0 := by
      rw [same]
      exact expireRoot_ordered_iff held ordered heap
    constructor
    · intro leftOrdered
      have later := leftOrdered.later stopped
      have onlyRoot : OnlyRootDue manager now :=
        (onlyRootDue_iff heap).mpr fun entry member => later entry (perm.mem_iff.mp member)
      exact .inr (.inr ⟨onlyRoot, removal.mp leftOrdered⟩)
    · rintro (noneDue | allDue | ⟨-, harmless⟩)
      · exact absurd (noneDue top (by rw [heap]; exact List.mem_cons_self)) due.not_gt
      · rw [leftBySweep_allDue coupled allDue]
        exact .nil
      · exact removal.mpr harmless
  · obtain ⟨gone, reordered, expired, -⟩ := leftBySweep_perm coupled now
    rw [empty, List.append_nil] at reordered
    rw [empty]
    exact ⟨fun _ => .inr (.inl fun entry member => expired entry (reordered.mem_iff.mp member)),
      fun _ => .nil⟩
  -- A due entry is left under a root that is not due.
  · have notLater : ¬ ∀ entry ∈ leftBySweep manager now, now < entry.expireTime :=
      fun later => absurd (later entry left) early.not_gt
    constructor
    · intro leftOrdered
      exact absurd (leftOrdered.later stopped) notLater
    · rintro (noneDue | allDue | ⟨onlyRoot, -⟩)
      · exact absurd (noneDue top (by rw [heap]; exact List.mem_cons_self)) due.not_gt
      · exact absurd ((leftBySweep_later_iff coupled now).mpr (.inr allDue)) notLater
      · exact absurd ((leftBySweep_later_iff coupled now).mpr (.inl onlyRoot)) notLater

/-- **One step.** From a heap, an operation leads to a heap exactly when its change is
harmless. -/
theorem changed_ordered_iff (ready : Ready manager) (ordered : HeapOrdered manager.expirationHeap)
    {change : Change} (changed : Changed manager change other) :
    HeapOrdered other.expirationHeap ↔ Harmless manager change := by
  -- Each kind of change is one call of a heap loop, and the loop's own condition decides.
  cases change with
  | kept =>
    have same : other.expirationHeap = manager.expirationHeap := changed
    rw [same]
    exact ⟨fun _ => trivial, fun _ => ordered⟩
  | updated index expireTime =>
    obtain ⟨inRange, length, expiry⟩ := changed
    rw [HeapOrdered, length, expiry]
    exact isHeap_resift_iff ordered inRange expireTime
  | appended expireTime =>
    obtain ⟨length, entry, -, expiry⟩ := changed
    rw [HeapOrdered, length, expiry]
    have sifted := (ordered.append entry).isHeap_siftUp (Nat.lt_succ_self _) (le_refl _)
    exact ⟨fun _ => trivial, fun _ => sifted⟩
  | removed index =>
    obtain ⟨inRange, length, expiry⟩ := changed
    have shorter : other.expirationHeap.length = manager.expirationHeap.length - 1 := by omega
    rw [HeapOrdered, shorter, expiry]
    exact removedExpiry_isHeap_iff ordered inRange
  | swept now =>
    have left : other.expirationHeap = leftBySweep manager now := changed
    rw [left]
    exact leftBySweep_ordered_iff ready.coupled ordered now
  | cleared =>
    have empty : other.expirationHeap = [] := changed
    rw [empty]
    exact ⟨fun _ => trivial, fun _ => .nil⟩

end Step

/-! ### Runs -/

/-- Every state a run passes through is a heap. -/
def HeapThroughout (manager : TTLManager) (ops : List Op) : Prop :=
  ∀ before, before <+: ops →
    ∃ reached, manager.run before = some reached ∧ HeapOrdered reached.expirationHeap

/-- Every operation of a run meets the condition in the state it starts from. -/
def HarmlessThroughout (manager : TTLManager) (ops : List Op) : Prop :=
  ∀ before op, before ++ [op] <+: ops →
    ∃ reached, manager.run before = some reached ∧ Harmless reached (reached.change op)

section Run

variable {manager other : TTLManager} {op : Op}

theorem exists_run_nil {holds : TTLManager → Prop} :
    (∃ reached, manager.run [] = some reached ∧ holds reached) ↔ holds manager := by
  constructor
  · rintro ⟨reached, ran, now⟩
    cases ran
    exact now
  · exact fun now => ⟨manager, rfl, now⟩

theorem heapThroughout_cons (stepped : manager.next op = some other) (ops : List Op) :
    HeapThroughout manager (op :: ops) ↔
      HeapOrdered manager.expirationHeap ∧ HeapThroughout other ops := by
  rw [HeapThroughout, forall_prefix_cons, exists_run_nil]
  simp only [run_cons stepped]
  rfl

theorem harmlessThroughout_cons (stepped : manager.next op = some other) (ops : List Op) :
    HarmlessThroughout manager (op :: ops) ↔
      Harmless manager (manager.change op) ∧ HarmlessThroughout other ops := by
  rw [HarmlessThroughout, forall_prefix_concat_cons, exists_run_nil]
  simp only [run_cons stepped]
  rfl

theorem heapThroughout_iff (ready : Ready manager) (ordered : HeapOrdered manager.expirationHeap)
    (ops : List Op) (positive : ∀ op ∈ ops, op.Positive) :
    HeapThroughout manager ops ↔ HarmlessThroughout manager ops := by
  induction ops generalizing manager with
  | nil =>
    constructor
    · intro _ before op early
      exact absurd (List.prefix_nil.mp early) (List.append_ne_nil_of_right_ne_nil _ (by simp))
    · intro _ before early
      rw [List.prefix_nil.mp early]
      exact ⟨manager, rfl, ordered⟩
  | cons op ops ih =>
    obtain ⟨other, stepped, ready', changed⟩ :=
      next_spec ready op (positive op List.mem_cons_self)
    -- The state after the first operation is a heap exactly when the operation is harmless.
    rw [heapThroughout_cons stepped, harmlessThroughout_cons stepped,
      ← changed_ordered_iff ready ordered changed, and_iff_right ordered]
    have rest := fun later member => positive later (List.mem_cons_of_mem op member)
    constructor
    · intro throughout
      have ordered' := exists_run_nil.mp (throughout [] List.nil_prefix)
      exact ⟨ordered', (ih ready' ordered' rest).mp throughout⟩
    · rintro ⟨ordered', harmless⟩
      exact (ih ready' ordered' rest).mpr harmless

end Run

/-- **When the array is a min-heap.** A run with positive durations from the empty manager
passes through min-heaps only exactly when every operation of it is harmless in the state it
starts from. -/
theorem run_heapOrdered_iff (ops : List Op) (positive : ∀ op ∈ ops, op.Positive) :
    HeapThroughout initial ops ↔ HarmlessThroughout initial ops :=
  heapThroughout_iff .initial .nil ops positive

theorem run_heapOrdered_iff_sweep :
    (∀ op ∈ [Op.setTtl 0 (text "a") 3, .setTtl 0 (text "b") 2, .setTtl 0 (text "a") 1,
        .checkExpirations 1500000000, .removeTtl (text "b")], op.Positive) ∧
      (HeapThroughout initial [.setTtl 0 (text "a") 3, .setTtl 0 (text "b") 2,
          .setTtl 0 (text "a") 1, .checkExpirations 1500000000, .removeTtl (text "b")] ↔
        HarmlessThroughout initial [.setTtl 0 (text "a") 3, .setTtl 0 (text "b") 2,
          .setTtl 0 (text "a") 1, .checkExpirations 1500000000, .removeTtl (text "b")]) :=
  ⟨by decide, run_heapOrdered_iff [.setTtl 0 (text "a") 3, .setTtl 0 (text "b") 2,
    .setTtl 0 (text "a") 1, .checkExpirations 1500000000, .removeTtl (text "b")] (by decide)⟩

/-- The key that expires first gets a later expiry time and stays at the root. -/
theorem update_breaks_heap :
    ∃ manager, initial.run
        [.setTtl 0 (text "a") 1, .setTtl 0 (text "b") 2, .setTtl 0 (text "a") 3] = some manager ∧
      ¬ HeapOrdered manager.expirationHeap := by
  refine ⟨_, rfl, fun ordered => ?_⟩
  have order := ordered 1 (by decide) (by decide)
  exact absurd order (by decide)

end TTLManager
end ScuffedRedis
