import ScuffedRedis.Data.TtlManagerLaws

/-!
# What a sweep leaves

`check_expirations` takes entries out while the root is due. A removal of the root can lift
a later expiry time over the others, so the sweep can stop early.
-/
namespace ScuffedRedis
namespace TTLManager

open Foundation

/-! ### The loop -/

/-- What the loop has done when it stops. -/
structure Swept (now : Int64) (manager : TTLManager) (expired : List Bytes) (last : TTLManager) :
    Prop where
  coupled : Coupled last
  mutexHeld : last.mutexHeld = manager.mutexHeld
  nextId : last.nextId = manager.nextId
  gone : ∃ gone, manager.expirationHeap.Perm (gone ++ last.expirationHeap) ∧
    (∀ entry ∈ gone, entry.expireTime ≤ now) ∧ expired = gone.map TTLEntry.key
  stopped : ∀ top ∈ last.expirationHeap.head?, now < top.expireTime

/-- The manager after one iteration. -/
def expireRoot (manager : TTLManager) : TTLManager :=
  { manager.removeFromHeap 0 with totalExpired := (manager.removeFromHeap 0).totalExpired + 1 }

theorem expireLoop_stop {now : Int64} {manager : TTLManager} (fuel : Nat)
    (stop : ∀ top ∈ manager.expirationHeap.head?, now < top.expireTime) :
    expireLoop now fuel manager = ([], manager) := by
  cases fuel with
  | zero => rfl
  | succ fuel =>
    rw [expireLoop]
    cases heap : manager.expirationHeap with
    | nil => rfl
    | cons top rest =>
      have later : top.expireTime > now := stop top (by rw [heap]; rfl)
      simp only [if_pos later]

theorem expireLoop_step {now : Int64} {manager : TTLManager} (fuel : Nat) {top : TTLEntry}
    {rest : List TTLEntry} (heap : manager.expirationHeap = top :: rest)
    (due : top.expireTime ≤ now) :
    expireLoop now (fuel + 1) manager =
      (top.key :: (expireLoop now fuel manager.expireRoot).1,
        (expireLoop now fuel manager.expireRoot).2) := by
  rw [expireLoop, heap]
  have notLater : ¬ top.expireTime > now := due.not_gt
  simp only [if_neg notLater]
  rfl

theorem expireRoot_removed {manager : TTLManager} (coupled : Coupled manager) {top : TTLEntry}
    {rest : List TTLEntry} (heap : manager.expirationHeap = top :: rest) :
    Coupled manager.expireRoot ∧ manager.expireRoot.mutexHeld = manager.mutexHeld ∧
      manager.expireRoot.nextId = manager.nextId ∧
      rest.Perm manager.expireRoot.expirationHeap := by
  have present : manager.expirationHeap[0]? = some top := by rw [heap]; rfl
  obtain ⟨removed, -⟩ := removeFromHeap_spec coupled present
  have perm := removed.perm
  rw [heap, List.perm_cons] at perm
  exact ⟨⟨removed.coupled.indexed, removed.coupled.identified⟩, removed.mutexHeld, removed.nextId,
    perm⟩

theorem expireLoop_swept (now : Int64) {fuel : Nat} {manager : TTLManager}
    (coupled : Coupled manager) (enough : manager.expirationHeap.length ≤ fuel) :
    Swept now manager (expireLoop now fuel manager).1 (expireLoop now fuel manager).2 := by
  induction fuel generalizing manager with
  | zero =>
    have empty : manager.expirationHeap = [] := List.length_eq_zero_iff.mp (Nat.le_zero.mp enough)
    exact ⟨coupled, rfl, rfl, ⟨[], List.Perm.refl _, by simp, rfl⟩, by simp [expireLoop, empty]⟩
  | succ fuel ih =>
    -- The loop stops at a root that is not due, and otherwise removes it and goes on.
    by_cases stop : ∀ top ∈ manager.expirationHeap.head?, now < top.expireTime
    · rw [expireLoop_stop _ stop]
      exact ⟨coupled, rfl, rfl, ⟨[], List.Perm.refl _, by simp, rfl⟩, stop⟩
    · push Not at stop
      obtain ⟨top, first, due⟩ := stop
      obtain ⟨rest, heap⟩ := List.head?_eq_some_iff.mp first
      obtain ⟨coupled', mutexHeld, nextId, perm⟩ := expireRoot_removed coupled heap
      have shorter : manager.expireRoot.expirationHeap.length ≤ fuel := by
        rw [heap, List.length_cons] at enough
        rw [← perm.length_eq]
        omega
      have swept := ih coupled' shorter
      obtain ⟨gone, reordered, expired, keys⟩ := swept.gone
      rw [expireLoop_step fuel heap due]
      refine ⟨swept.coupled, swept.mutexHeld.trans mutexHeld, swept.nextId.trans nextId,
        ⟨top :: gone, ?_, ?_, ?_⟩, swept.stopped⟩
      · rw [heap]
        exact (perm.trans reordered).cons top
      · intro entry member
        rcases List.mem_cons.mp member with rfl | later
        · exact due
        · exact expired entry later
      · rw [keys, List.map_cons]

/-! ### How a sweep can stop -/

/-- All entries but the root are due only after `now`. -/
def OnlyRootDue (manager : TTLManager) (now : Int64) : Prop :=
  ∀ entry ∈ manager.expirationHeap.tail, now < entry.expireTime

def AllDue (manager : TTLManager) (now : Int64) : Prop :=
  ∀ entry ∈ manager.expirationHeap, entry.expireTime ≤ now

theorem onlyRootDue_iff {manager : TTLManager} {now : Int64} {top : TTLEntry} {rest : List TTLEntry}
    (heap : manager.expirationHeap = top :: rest) :
    OnlyRootDue manager now ↔ ∀ entry ∈ rest, now < entry.expireTime := by
  rw [OnlyRootDue, heap, List.tail_cons]

/-- After a removal of the root a sweep that goes on leaves nothing or a due entry. -/
theorem expireLoop_rootNotFirst (now : Int64) {fuel : Nat} {manager : TTLManager}
    (coupled : Coupled manager) (enough : manager.expirationHeap.length ≤ fuel)
    (notFirst : RootNotFirst manager)
    (due : ∃ top ∈ manager.expirationHeap.head?, top.expireTime ≤ now) :
    (expireLoop now fuel manager).2.expirationHeap = [] ∨
      ∃ entry ∈ (expireLoop now fuel manager).2.expirationHeap, entry.expireTime ≤ now := by
  induction fuel generalizing manager with
  | zero =>
    exact .inl (List.length_eq_zero_iff.mp (Nat.le_zero.mp enough))
  | succ fuel ih =>
    obtain ⟨top, first, due⟩ := due
    obtain ⟨rest, heap⟩ := List.head?_eq_some_iff.mp first
    obtain ⟨coupled', -, -, perm⟩ := expireRoot_removed coupled heap
    rw [expireLoop_step fuel heap due]
    -- The next removal leaves again another entry that is due no later than the root.
    by_cases goesOn : ∃ top ∈ manager.expireRoot.expirationHeap.head?, top.expireTime ≤ now
    · apply ih coupled' _ (removeFromHeap_rootNotFirst coupled) goesOn
      rw [heap, List.length_cons] at enough
      rw [← perm.length_eq]
      omega
    · push Not at goesOn
      rw [expireLoop_stop fuel goesOn]
      by_cases empty : rest = []
      · rw [empty] at perm
        exact .inl perm.nil_eq.symm
      · obtain ⟨entry, member, early⟩ := notFirst top rest heap empty
        exact .inr ⟨entry, perm.mem_iff.mp member, early.trans due⟩

/-- The three ways a sweep ends: at once, after one removal, or with nothing or a due entry
left. -/
theorem expireLoop_cases (now : Int64) {manager : TTLManager} (coupled : Coupled manager) :
    ((∀ top ∈ manager.expirationHeap.head?, now < top.expireTime) ∧
        (expireLoop now manager.expirationHeap.length manager).2 = manager) ∨
      (∃ top rest, manager.expirationHeap = top :: rest ∧ top.expireTime ≤ now ∧
        ((expireLoop now manager.expirationHeap.length manager).2 = manager.expireRoot ∨
          (expireLoop now manager.expirationHeap.length manager).2.expirationHeap = [] ∨
          ∃ entry ∈ rest,
            entry ∈ (expireLoop now manager.expirationHeap.length manager).2.expirationHeap ∧
            entry.expireTime ≤ now)) := by
  by_cases stop : ∀ top ∈ manager.expirationHeap.head?, now < top.expireTime
  · exact .inl ⟨stop, by rw [expireLoop_stop _ stop]⟩
  push Not at stop
  obtain ⟨top, first, due⟩ := stop
  obtain ⟨rest, heap⟩ := List.head?_eq_some_iff.mp first
  obtain ⟨coupled', -, -, perm⟩ := expireRoot_removed coupled heap
  refine .inr ⟨top, rest, heap, due, ?_⟩
  have unfolded : (expireLoop now manager.expirationHeap.length manager).2 =
      (expireLoop now rest.length manager.expireRoot).2 := by
    have length : manager.expirationHeap.length = rest.length + 1 := by rw [heap, List.length_cons]
    rw [length, expireLoop_step _ heap due]
  rw [unfolded]
  -- A sweep that goes on has removed the root once, which leaves another entry due no later.
  by_cases goesOn : ∃ top ∈ manager.expireRoot.expirationHeap.head?, top.expireTime ≤ now
  · right
    rcases expireLoop_rootNotFirst now coupled' perm.length_eq.ge
      (removeFromHeap_rootNotFirst coupled) goesOn with empty | ⟨entry, left, early⟩
    · exact .inl empty
    · obtain ⟨gone, reordered, -⟩ := (expireLoop_swept now coupled' perm.length_eq.ge).gone
      have kept := (perm.trans reordered).mem_iff.mpr (List.mem_append_right gone left)
      exact .inr ⟨entry, kept, left, early⟩
  · push Not at goesOn
    exact .inl (by rw [expireLoop_stop _ goesOn])

/-! ### When a sweep is complete -/

/-- A sweep returns the number of due entries and leaves none of them. -/
def SweepComplete (manager : TTLManager) (now : Int64) : Prop :=
  ∃ count expired last, manager.checkExpirations now = .returned (count, expired) last ∧
    (∀ entry ∈ last.expirationHeap, now < entry.expireTime) ∧
    count = manager.expirationHeap.countP fun entry => entry.expireTime ≤ now

/-- The entries a sweep leaves, whatever the mutex does meanwhile. -/
def leftBySweep (manager : TTLManager) (now : Int64) : List TTLEntry :=
  (expireLoop now manager.expirationHeap.length
    { manager with mutexHeld := true }).2.expirationHeap

theorem Coupled.withMutex {manager : TTLManager} (coupled : Coupled manager) (held : Bool) :
    Coupled { manager with mutexHeld := held } :=
  ⟨coupled.indexed, coupled.identified⟩

theorem leftBySweep_allDue {manager : TTLManager} (coupled : Coupled manager) {now : Int64}
    (allDue : AllDue manager now) : leftBySweep manager now = [] := by
  have swept := expireLoop_swept now (coupled.withMutex true) (le_refl _)
  obtain ⟨gone, reordered, -, -⟩ := swept.gone
  rw [leftBySweep]
  cases left : (expireLoop now manager.expirationHeap.length
      { manager with mutexHeld := true }).2.expirationHeap with
  | nil => rfl
  | cons top rest =>
    -- The loop goes on while the root is due.
    have later := swept.stopped top (by rw [left]; rfl)
    rw [left] at reordered
    have member : top ∈ manager.expirationHeap := reordered.mem_iff.mpr (by simp)
    exact absurd (allDue top member) later.not_ge

theorem leftBySweep_perm {manager : TTLManager} (coupled : Coupled manager) (now : Int64) :
    ∃ gone, manager.expirationHeap.Perm (gone ++ leftBySweep manager now) ∧
      (∀ entry ∈ gone, entry.expireTime ≤ now) ∧
      (expireLoop now manager.expirationHeap.length { manager with mutexHeld := true }).1.length =
        gone.length := by
  obtain ⟨gone, reordered, expired, keys⟩ :=
    (expireLoop_swept now (coupled.withMutex true) (le_refl _)).gone
  exact ⟨gone, reordered, expired, (congrArg List.length keys).trans (List.length_map _)⟩

/-- The three ways a sweep ends, by the entries it leaves. -/
theorem leftBySweep_cases {manager : TTLManager} (coupled : Coupled manager) (now : Int64) :
    ((∀ top ∈ manager.expirationHeap.head?, now < top.expireTime) ∧
        leftBySweep manager now = manager.expirationHeap) ∨
      ∃ top rest, manager.expirationHeap = top :: rest ∧ top.expireTime ≤ now ∧
        (leftBySweep manager now =
            (expireRoot { manager with mutexHeld := true }).expirationHeap ∧
              rest.Perm (leftBySweep manager now) ∨
          leftBySweep manager now = [] ∨
          ∃ entry ∈ rest, entry ∈ leftBySweep manager now ∧ entry.expireTime ≤ now) := by
  have held := coupled.withMutex true
  rcases expireLoop_cases now held with ⟨later, same⟩ | ⟨top, rest, heap, due, ends⟩
  · exact .inl ⟨later, by rw [leftBySweep, same]⟩
  · refine .inr ⟨top, rest, heap, due, ?_⟩
    rcases ends with same | empty | dueLeft
    · have left : leftBySweep manager now =
          (expireRoot { manager with mutexHeld := true }).expirationHeap :=
        congrArg expirationHeap same
      have perm := (expireRoot_removed held heap).2.2.2
      rw [← left] at perm
      exact .inl ⟨left, perm⟩
    · exact .inr (.inl empty)
    · exact .inr (.inr dueLeft)

/-- Nothing due is left exactly when none but the root are due, or all are. -/
theorem leftBySweep_later_iff {manager : TTLManager} (coupled : Coupled manager) (now : Int64) :
    (∀ entry ∈ leftBySweep manager now, now < entry.expireTime) ↔
      OnlyRootDue manager now ∨ AllDue manager now := by
  have ends := leftBySweep_cases coupled now
  obtain ⟨gone, reordered, expired, -⟩ := leftBySweep_perm coupled now
  constructor
  -- Each way to end says what the entries were: at once, after one removal, or with nothing left.
  · intro later
    rcases ends with ⟨-, same⟩ | ⟨top, rest, heap, due, ⟨-, perm⟩ | empty | ⟨entry, -, left, early⟩⟩
    · left
      intro entry member
      rw [same] at later
      exact later entry (List.mem_of_mem_tail member)
    · left
      rw [onlyRootDue_iff heap]
      exact fun entry member => later entry (perm.mem_iff.mp member)
    · right
      intro entry member
      have isGone := reordered.mem_iff.mp member
      rw [empty, List.append_nil] at isGone
      exact expired entry isGone
    · exact absurd (later entry left) early.not_gt
  · rintro (onlyRoot | allDue)
    · rcases ends with
        ⟨stop, same⟩ | ⟨top, rest, heap, due, ⟨-, perm⟩ | empty | ⟨other, kept, -, early⟩⟩
      · rw [same]
        cases heap : manager.expirationHeap with
        | nil => exact List.forall_mem_nil _
        | cons top rest =>
          rw [heap] at stop
          exact List.forall_mem_cons.mpr ⟨stop top rfl, (onlyRootDue_iff heap).mp onlyRoot⟩
      · rw [onlyRootDue_iff heap] at onlyRoot
        exact fun entry left => onlyRoot entry (perm.mem_iff.mpr left)
      · rw [empty]
        exact List.forall_mem_nil _
      · exact absurd ((onlyRootDue_iff heap).mp onlyRoot other kept) early.not_gt
    · rw [leftBySweep_allDue coupled allDue]
      exact List.forall_mem_nil _

/-- The count is right exactly when nothing due is left. -/
theorem sweepComplete_iff {manager : TTLManager} (coupled : Coupled manager)
    (free : manager.mutexHeld = false) (now : Int64) :
    SweepComplete manager now ↔ OnlyRootDue manager now ∨ AllDue manager now := by
  rw [← leftBySweep_later_iff coupled now]
  have returns : manager.checkExpirations now =
      .returned ((expireLoop now manager.expirationHeap.length
          { manager with mutexHeld := true }).1.length,
        (expireLoop now manager.expirationHeap.length { manager with mutexHeld := true }).1)
        { (expireLoop now manager.expirationHeap.length
          { manager with mutexHeld := true }).2 with mutexHeld := false } := by
    rw [checkExpirations, locked, free]
    rfl
  constructor
  · rintro ⟨count, keys, last, returned, later, -⟩
    rw [returns] at returned
    cases returned
    exact later
  · intro later
    refine ⟨_, _, _, returns, later, ?_⟩
    obtain ⟨gone, reordered, expired, length⟩ := leftBySweep_perm coupled now
    -- All the entries that are gone were due, and none of those left.
    rw [length, reordered.countP_eq, List.countP_append, List.countP_eq_length.mpr,
      List.countP_eq_zero.mpr, Nat.add_zero]
    · intro entry left
      simpa using later entry left
    · intro entry member
      simpa using expired entry member

end TTLManager
end ScuffedRedis
