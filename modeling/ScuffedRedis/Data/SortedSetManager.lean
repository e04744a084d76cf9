import ScuffedRedis.Data.SortedSetNaN

/-!
# Sorted sets under keys

`SortedSetManager` hands out shared pointers to its sets, and the sets are used without it. Deleting
a key makes the manager forget the set, and not those who hold it: they share a set with others
exactly when all of them asked for the same key and it was not deleted meanwhile. So a caller finds
under a key what those who asked for it since its deletion have made of an empty set.
-/
namespace ScuffedRedis

open Foundation

/-- `objects` are the sets that were made, in that order. A shared pointer is the place of its set
there. Nobody can see when a set is destroyed. -/
structure SortedSetManager where
  sets : Finmap fun _ : Bytes => Nat
  objects : List SortedSet

namespace SortedSetManager

def initial : SortedSetManager where
  sets := ∅
  objects := []

def getOrCreate (manager : SortedSetManager) (key : Bytes) : Nat × SortedSetManager :=
  match manager.sets.lookup key with
  | some pointer => (pointer, manager)
  | none =>
    let pointer := manager.objects.length
    (pointer, ⟨manager.sets.insert key pointer, manager.objects ++ [.empty]⟩)

def del (manager : SortedSetManager) (key : Bytes) : Bool × SortedSetManager :=
  (decide (key ∈ manager.sets), { manager with sets := manager.sets.erase key })

def exists' (manager : SortedSetManager) (key : Bytes) : Bool := decide (key ∈ manager.sets)

/-- The order is that of the map. -/
def keys (manager : SortedSetManager) : Finset Bytes := manager.sets.keys

def clear (manager : SortedSetManager) : SortedSetManager := { manager with sets := ∅ }

/-- A call of the set behind a pointer. -/
def update (manager : SortedSetManager) (pointer : Nat) (op : SetOp) : Option SortedSetManager := do
  let set ← manager.objects[pointer]?
  let set ← set.next op
  return { manager with objects := manager.objects.set pointer set }

/-- A call of the manager, or of a set. -/
inductive Call where
  | getOrCreate (key : Bytes)
  | del (key : Bytes)
  | exists' (key : Bytes)
  | keys
  | clear
  | update (pointer : Nat) (op : SetOp)

inductive Answer where
  | pointer (pointer : Nat)
  | found (found : Bool)
  | keys (keys : Finset Bytes)
  | nothing

/-- Each call is atomic: the manager and the sets have their mutexes. -/
def step (manager : SortedSetManager) : Call → Option (Answer × SortedSetManager)
  | .getOrCreate key =>
    let (pointer, manager) := manager.getOrCreate key
    some (.pointer pointer, manager)
  | .del key =>
    let (found, manager) := manager.del key
    some (.found found, manager)
  | .exists' key => some (.found (manager.exists' key), manager)
  | .keys => some (.keys manager.keys, manager)
  | .clear => some (.nothing, manager.clear)
  | .update pointer op => do
    let manager ← manager.update pointer op
    return (.nothing, manager)

/-- The call makes the manager forget the set of the key. -/
def Drops (key : Bytes) : Call → Prop
  | .del other => other = key
  | .clear => True
  | .getOrCreate _ | .exists' _ | .keys | .update _ _ => False

instance (key : Bytes) : DecidablePred (Drops key)
  | .del other => inferInstanceAs (Decidable (other = key))
  | .clear => inferInstanceAs (Decidable True)
  | .getOrCreate _ | .exists' _ | .keys | .update _ _ => inferInstanceAs (Decidable False)

/-! ### Which pointers are the same -/

/-- The keys have sets that were made, and no two of them the same. -/
structure Valid (manager : SortedSetManager) : Prop where
  made : ∀ key pointer, manager.sets.lookup key = some pointer → pointer < manager.objects.length
  injective : ∀ key other pointer, manager.sets.lookup key = some pointer →
    manager.sets.lookup other = some pointer → key = other

/-- No key has this set, which was made. -/
def Forgotten (pointer : Nat) (manager : SortedSetManager) : Prop :=
  pointer < manager.objects.length ∧ ∀ key, manager.sets.lookup key ≠ some pointer

variable {manager next : SortedSetManager} {answer : Answer} {call : Call} {key : Bytes}
  {pointer : Nat}

theorem lookup_initial (key : Bytes) : initial.sets.lookup key = none := Finmap.lookup_empty key

theorem Valid.initial : initial.Valid where
  made key pointer held := by
    rw [lookup_initial] at held
    cases held
  injective key other pointer held := by
    rw [lookup_initial] at held
    cases held

/-- A new key, and its new set. -/
theorem getOrCreate_new (absent : manager.sets.lookup key = none) :
    manager.getOrCreate key =
      (manager.objects.length,
        ⟨manager.sets.insert key manager.objects.length, manager.objects ++ [.empty]⟩) := by
  rw [getOrCreate, absent]

theorem getOrCreate_old (held : manager.sets.lookup key = some pointer) :
    manager.getOrCreate key = (pointer, manager) := by
  rw [getOrCreate, held]

/-- What each call does to the keys, and that no set disappears. -/
theorem step_cases (stepped : manager.step call = some (answer, next)) :
    (∃ key, call = .getOrCreate key ∧ manager.sets.lookup key = none ∧
      answer = .pointer manager.objects.length ∧
      next = ⟨manager.sets.insert key manager.objects.length, manager.objects ++ [.empty]⟩) ∨
    (∃ key, call = .del key ∧ next = { manager with sets := manager.sets.erase key }) ∨
    (call = .clear ∧ next = manager.clear) ∨
    (∃ pointer op set after, call = .update pointer op ∧ manager.objects[pointer]? = some set ∧
      set.next op = some after ∧
      next = { manager with objects := manager.objects.set pointer after }) ∨
    ((∀ key, ¬ Drops key call) ∧ (∀ pointer op, call ≠ .update pointer op) ∧ next = manager) := by
  cases call with
  | getOrCreate key =>
    cases held : manager.sets.lookup key with
    | none =>
      rw [step, getOrCreate_new held] at stepped
      cases stepped
      exact .inl ⟨key, rfl, held, rfl, rfl⟩
    | some pointer =>
      rw [step, getOrCreate_old held] at stepped
      cases stepped
      exact .inr (.inr (.inr (.inr ⟨fun _ => id, nofun, rfl⟩)))
  | del key =>
    cases stepped
    exact .inr (.inl ⟨key, rfl, rfl⟩)
  | exists' key | keys =>
    cases stepped
    exact .inr (.inr (.inr (.inr ⟨fun _ => id, nofun, rfl⟩)))
  | clear =>
    cases stepped
    exact .inr (.inr (.inl ⟨rfl, rfl⟩))
  | update pointer op =>
    simp only [step, update, Option.bind_eq_bind, Option.bind_eq_some_iff, Option.pure_def,
      Option.some.injEq, Prod.mk.injEq] at stepped
    obtain ⟨_, ⟨set, found, after, updated, rfl⟩, -, rfl⟩ := stepped
    exact .inr (.inr (.inr (.inl ⟨pointer, op, set, after, rfl, found, updated, rfl⟩)))

theorem Valid.step (valid : manager.Valid) (stepped : manager.step call = some (answer, next)) :
    next.Valid := by
  obtain ⟨key, -, absent, -, rfl⟩ | ⟨key, -, rfl⟩ | ⟨-, rfl⟩ |
    ⟨place, op, set, after, -, -, -, rfl⟩ | ⟨-, -, rfl⟩ := step_cases stepped
  · have looked (other : Bytes) (pointer : Nat)
        (held : (manager.sets.insert key manager.objects.length).lookup other = some pointer) :
        (other = key ∧ pointer = manager.objects.length) ∨
          manager.sets.lookup other = some pointer := by
      by_cases same : other = key
      · subst same
        rw [Finmap.lookup_insert] at held
        cases held
        exact .inl ⟨rfl, rfl⟩
      · rw [Finmap.lookup_insert_of_ne _ same] at held
        exact .inr held
    constructor
    · intro other pointer held
      rw [List.length_append, List.length_singleton]
      obtain ⟨-, rfl⟩ | old := looked other pointer held
      · exact Nat.lt_succ_self _
      · exact Nat.lt_succ_of_lt (valid.made other pointer old)
    · intro first second pointer held held'
      obtain ⟨rfl, rfl⟩ | old := looked first pointer held <;>
        obtain ⟨rfl, new⟩ | old' := looked second _ held'
      · rfl
      · exact absurd (valid.made second _ old') (Nat.lt_irrefl _)
      · subst new
        exact absurd (valid.made first _ old) (Nat.lt_irrefl _)
      · exact valid.injective first second pointer old old'
  · have kept (other : Bytes) (pointer : Nat)
        (held : (manager.sets.erase key).lookup other = some pointer) :
        manager.sets.lookup other = some pointer := by
      by_cases same : other = key
      · subst same
        rw [Finmap.lookup_erase] at held
        cases held
      · rwa [Finmap.lookup_erase_ne same] at held
    exact ⟨fun other pointer held => valid.made other pointer (kept other pointer held),
      fun first second pointer held held' => valid.injective first second pointer
        (kept first pointer held) (kept second pointer held')⟩
  · exact ⟨fun other pointer held => absurd held (by simp [clear]),
      fun other _ pointer held => absurd held (by simp [clear])⟩
  · refine ⟨fun other pointer held => ?_, valid.injective⟩
    rw [List.length_set]
    exact valid.made other pointer held
  · exact valid

/-- A call that does not drop a key leaves its set to it. -/
theorem step_holds (stepped : manager.step call = some (answer, next)) (keeps : ¬ Drops key call)
    (held : manager.sets.lookup key = some pointer) : next.sets.lookup key = some pointer := by
  obtain ⟨other, -, absent, -, rfl⟩ | ⟨other, rfl, rfl⟩ | ⟨rfl, rfl⟩ |
    ⟨place, op, set, after, -, -, -, rfl⟩ | ⟨-, -, rfl⟩ := step_cases stepped
  · have apart : key ≠ other := by
      rintro rfl
      rw [absent] at held
      cases held
    exact (Finmap.lookup_insert_of_ne _ apart).trans held
  · exact (Finmap.lookup_erase_ne fun same => keeps same.symm).trans held
  · exact absurd trivial keeps
  · exact held
  · exact held

/-- A call that drops a key leaves its set to nobody. -/
theorem step_drops (valid : manager.Valid) (stepped : manager.step call = some (answer, next))
    (drops : Drops key call) (held : manager.sets.lookup key = some pointer) :
    Forgotten pointer next := by
  have made := valid.made key pointer held
  cases call with
  | del other =>
    obtain rfl : other = key := drops
    cases stepped
    refine ⟨made, fun first shown => ?_⟩
    by_cases same : first = other
    · subst same
      cases shown.symm.trans (Finmap.lookup_erase _ _)
    · rw [Finmap.lookup_erase_ne same] at shown
      exact same (valid.injective first other pointer shown held)
  | clear =>
    cases stepped
    exact ⟨made, fun first shown => by cases shown.symm.trans (Finmap.lookup_empty first)⟩
  | getOrCreate | exists' | keys | update => exact drops.elim

/-- A set that was forgotten stays so. -/
theorem Forgotten.step (forgotten : Forgotten pointer manager)
    (stepped : manager.step call = some (answer, next)) : Forgotten pointer next := by
  obtain ⟨made, nobody⟩ := forgotten
  obtain ⟨key, -, absent, -, rfl⟩ | ⟨key, -, rfl⟩ | ⟨-, rfl⟩ |
    ⟨place, op, set, after, -, -, -, rfl⟩ | ⟨-, -, rfl⟩ := step_cases stepped
  · refine ⟨?_, fun first shown => ?_⟩
    · rw [List.length_append]
      exact Nat.lt_add_right _ made
    · by_cases same : first = key
      · subst same
        rw [Finmap.lookup_insert] at shown
        cases shown
        exact Nat.lt_irrefl _ made
      · rw [Finmap.lookup_insert_of_ne _ same] at shown
        exact nobody first shown
  · refine ⟨made, fun first shown => ?_⟩
    by_cases same : first = key
    · subst same
      cases shown.symm.trans (Finmap.lookup_erase _ _)
    · rw [Finmap.lookup_erase_ne same] at shown
      exact nobody first shown
  · exact ⟨made, fun first shown => by cases shown.symm.trans (Finmap.lookup_empty first)⟩
  · exact ⟨by rwa [List.length_set], nobody⟩
  · exact ⟨made, nobody⟩

theorem Valid.run {calls : List Call} {answers : List Answer} {last : SortedSetManager}
    (valid : manager.Valid)
    (ran : runAnswers SortedSetManager.step manager calls = some (answers, last)) :
    last.Valid :=
  runAnswers_invariant (fun _ _ manager => manager.Valid) valid
    (fun _ _ _ _ _ _ _ valid stepped => valid.step stepped) ran

/-- While calls are made, a set stays with its key, or it was dropped and nobody has it. -/
theorem run_pointer {calls : List Call} {answers : List Answer} {last : SortedSetManager}
    (valid : manager.Valid) (held : manager.sets.lookup key = some pointer)
    (ran : runAnswers SortedSetManager.step manager calls = some (answers, last)) :
    ((∀ call ∈ calls, ¬ Drops key call) ∧ last.sets.lookup key = some pointer) ∨
      ((∃ call ∈ calls, Drops key call) ∧ Forgotten pointer last) := by
  refine runAnswers_invariant (fun calls _ last =>
    ((∀ call ∈ calls, ¬ Drops key call) ∧ last.sets.lookup key = some pointer) ∨
      ((∃ call ∈ calls, Drops key call) ∧ Forgotten pointer last)) (.inl ⟨by simp, held⟩) ?_ ran
  intro calls answers between call answer next before state stepped
  obtain ⟨keeps, held⟩ | ⟨⟨other, member, dropped⟩, forgotten⟩ := state
  · by_cases drops : Drops key call
    · exact .inr ⟨⟨call, by simp, drops⟩, step_drops (valid.run before) stepped drops held⟩
    · refine .inl ⟨?_, step_holds stepped drops held⟩
      rw [List.forall_mem_append, List.forall_mem_singleton]
      exact ⟨keeps, drops⟩
  · exact .inr ⟨⟨other, by simp [member], dropped⟩, forgotten.step stepped⟩

theorem getOrCreate_holds (manager : SortedSetManager) (key : Bytes) :
    (manager.getOrCreate key).2.sets.lookup key = some (manager.getOrCreate key).1 := by
  cases held : manager.sets.lookup key with
  | none =>
    rw [getOrCreate_new held]
    exact Finmap.lookup_insert _
  | some pointer =>
    rw [getOrCreate_old held]
    exact held

/-- The answer for a key that has the set, or that may have any but this one. -/
theorem getOrCreate_eq_iff (made : pointer < manager.objects.length) :
    (manager.getOrCreate key).1 = pointer ↔ manager.sets.lookup key = some pointer := by
  cases held : manager.sets.lookup key with
  | none =>
    rw [getOrCreate_new held]
    exact iff_of_false (Nat.ne_of_gt made) nofun
  | some other =>
    rw [getOrCreate_old held, Option.some.injEq]

/-- **Shared pointers.** In every run of the manager and of the sets behind its pointers: two
callers have the same set exactly when they asked for the same key, and no call between them made
the manager forget that key. -/
theorem pointers_same_iff {before between : List Call} {answers others : List Answer}
    {manager later : SortedSetManager} {key key' : Bytes}
    (reached : runAnswers SortedSetManager.step initial before = some (answers, manager))
    (ran : runAnswers SortedSetManager.step (manager.getOrCreate key).2 between =
      some (others, later)) :
    (later.getOrCreate key').1 = (manager.getOrCreate key).1 ↔
      key = key' ∧ ∀ call ∈ between, ¬ Drops key call := by
  have made : (manager.getOrCreate key).2.Valid :=
    (Valid.initial.run reached).step
    (show manager.step (.getOrCreate key) = _ from rfl)
  have valid := made.run ran
  obtain ⟨keeps, held⟩ | ⟨⟨call, member, dropped⟩, forgotten⟩ :=
    run_pointer made (getOrCreate_holds manager key) ran
  · rw [getOrCreate_eq_iff (valid.made key _ held)]
    constructor
    · intro other
      exact ⟨valid.injective key key' _ held other, keeps⟩
    · rintro ⟨rfl, -⟩
      exact held
  · rw [getOrCreate_eq_iff forgotten.1]
    exact iff_of_false (forgotten.2 key') fun kept => kept.2 call member dropped

/-- Two callers, and between them one who deletes the key. -/
theorem pointers_same_iff_deleted :
    ∃ answers manager, runAnswers SortedSetManager.step
        (initial.getOrCreate (text "scores")).2 [.del (text "scores")] = some (answers, manager) ∧
      ((manager.getOrCreate (text "scores")).1 = (initial.getOrCreate (text "scores")).1 ↔
        text "scores" = text "scores" ∧
          ∀ call ∈ [Call.del (text "scores")], ¬ Drops (text "scores") call) :=
  ⟨_, _, rfl, pointers_same_iff (show runAnswers SortedSetManager.step initial [] = _ from rfl) rfl⟩

/-! ### What is found under a key -/

/-- The call of the set behind one of these pointers. -/
def Call.through (given : Nat → Prop) [DecidablePred given] : Call → Option SetOp
  | .update pointer op => if given pointer then some op else none
  | .getOrCreate _ | .del _ | .exists' _ | .keys | .clear => none

/-- The pointer that was handed out for this key. -/
def handedOut (key : Bytes) : Call × Answer → Option Nat
  | (.getOrCreate other, .pointer pointer) => if other = key then some pointer else none
  | _ => none

/-- What happened since the key was last dropped. -/
def sinceDrop (key : Bytes) (history : List (Call × Answer)) : List (Call × Answer) :=
  history.rtakeWhile fun entry => ¬ Drops key entry.1

/-- The pointers that were handed out for the key since it was last dropped. -/
def pointers (key : Bytes) (history : List (Call × Answer)) : List Nat :=
  (sinceDrop key history).filterMap (handedOut key)

/-- The updates through these pointers. -/
def updates (key : Bytes) (history : List (Call × Answer)) : List SetOp :=
  ((sinceDrop key history).map Prod.fst).filterMap (Call.through (· ∈ pointers key history))

/-- The sets are what the calls made of them, and there were none before a set was made. -/
structure Records (calls : List Call) (manager : SortedSetManager) : Prop where
  objects : ∀ pointer set, manager.objects[pointer]? = some set →
    SortedSet.run (calls.filterMap (Call.through (· = pointer))) = some set
  unmade : ∀ pointer, manager.objects.length ≤ pointer →
    calls.filterMap (Call.through (· = pointer)) = []

theorem through_eq_none (other : ∀ pointer op, call ≠ .update pointer op) (given : Nat → Prop)
    [DecidablePred given] : call.through given = none := by
  cases call with
  | update place op => exact absurd rfl (other place op)
  | getOrCreate | del | exists' | keys | clear => rfl

theorem through_congr {given given' : Nat → Prop} [DecidablePred given] [DecidablePred given']
    (same : ∀ pointer, given pointer ↔ given' pointer) (call : Call) :
    call.through given = call.through given' := by
  cases call with
  | update place op => simp only [Call.through, same]
  | getOrCreate | del | exists' | keys | clear => rfl

theorem through_false (call : Call) : call.through (fun _ => False) = none := by
  cases call with
  | update place op => rw [Call.through, if_neg id]
  | getOrCreate | del | exists' | keys | clear => rfl

/-- A call that is not of a set adds nothing to what was made of the sets. -/
theorem Records.other {calls : List Call} (records : Records calls manager)
    (other : ∀ pointer op, call ≠ .update pointer op) : Records (calls ++ [call]) manager := by
  have same (pointer : Nat) :
      (calls ++ [call]).filterMap (Call.through (· = pointer)) =
        calls.filterMap (Call.through (· = pointer)) := by
    rw [List.filterMap_append, List.filterMap_cons_none (through_eq_none other _),
      List.filterMap_nil, List.append_nil]
  refine ⟨fun pointer set shown => ?_, fun pointer beyond => ?_⟩
  · rw [same]
    exact records.objects pointer set shown
  · rw [same]
    exact records.unmade pointer beyond

theorem Records.created {calls : List Call} (records : Records calls manager) (key : Bytes)
    (pointer : Nat) :
    Records calls ⟨manager.sets.insert key pointer, manager.objects ++ [.empty]⟩ := by
  refine ⟨fun place set shown => ?_, fun place beyond => ?_⟩
  · rw [List.getElem?_append] at shown
    split at shown
    · exact records.objects place set shown
    next outside =>
      rw [List.getElem?_singleton] at shown
      split at shown
      · cases shown
        rw [records.unmade place (Nat.le_of_not_lt outside)]
        rfl
      · cases shown
  · refine records.unmade place (Nat.le_trans ?_ beyond)
    rw [List.length_append]
    exact Nat.le_add_right _ _

theorem Records.updated {calls : List Call} (records : Records calls manager) {place : Nat}
    {op : SetOp} {set after : SortedSet} (found : manager.objects[place]? = some set)
    (made : set.next op = some after) :
    Records (calls ++ [.update place op])
      { manager with objects := manager.objects.set place after } := by
  have inside := (List.getElem?_eq_some_iff.mp found).1
  have same (pointer : Nat) (other : place ≠ pointer) :
      (calls ++ [Call.update place op]).filterMap (Call.through (· = pointer)) =
        calls.filterMap (Call.through (· = pointer)) := by
    have nothing : (Call.update place op).through (· = pointer) = none := if_neg other
    rw [List.filterMap_append, List.filterMap_cons_none nothing, List.filterMap_nil,
      List.append_nil]
  refine ⟨fun pointer shown present => ?_, fun pointer beyond => ?_⟩
  · rw [List.getElem?_set] at present
    -- The set of the call has one more update, all others have those they had.
    by_cases own : place = pointer
    · subst own
      rw [if_pos rfl, if_pos inside] at present
      cases present
      have before := records.objects place set found
      have mine : (Call.update place op).through (· = place) = some op := if_pos rfl
      rw [SortedSet.run] at before ⊢
      rw [List.filterMap_append, List.foldlM_append, before, List.filterMap_cons_some mine,
        List.filterMap_nil]
      simp only [List.foldlM_cons, List.foldlM_nil, Option.bind_eq_bind, Option.bind_some, made,
        Option.pure_def]
    · rw [if_neg own] at present
      rw [same pointer own]
      exact records.objects pointer shown present
  · rw [List.length_set] at beyond
    rw [same pointer (Nat.ne_of_lt (Nat.lt_of_lt_of_le inside beyond))]
    exact records.unmade pointer beyond

theorem Records.step {calls : List Call} (records : Records calls manager)
    (stepped : manager.step call = some (answer, next)) : Records (calls ++ [call]) next := by
  obtain ⟨key, rfl, -, -, rfl⟩ | ⟨key, rfl, rfl⟩ | ⟨rfl, rfl⟩ |
    ⟨place, op, set, after, rfl, found, made, rfl⟩ | ⟨-, other, rfl⟩ := step_cases stepped
  · exact (records.other (by simp)).created key manager.objects.length
  · have kept : Records (calls ++ [.del key]) manager := records.other (by simp)
    exact ⟨kept.objects, kept.unmade⟩
  · have kept : Records (calls ++ [.clear]) manager := records.other (by simp)
    exact ⟨kept.objects, kept.unmade⟩
  · exact records.updated found made
  · exact records.other fun pointer op => other pointer op

/-- The key has the pointer that was handed out for it since it was last dropped, and nobody made a
call through this pointer before. -/
structure Tracks (calls : List Call) (answers : List Answer) (manager : SortedSetManager)
    (key : Bytes) : Prop where
  handed : ∀ pointer, pointer ∈ pointers key (calls.zip answers) ↔
    manager.sets.lookup key = some pointer
  through : ∀ pointer, manager.sets.lookup key = some pointer →
    ((sinceDrop key (calls.zip answers)).map Prod.fst).filterMap (Call.through (· = pointer)) =
      calls.filterMap (Call.through (· = pointer))

theorem handedOut_eq_some (stepped : manager.step call = some (answer, next))
    (handed : handedOut key (call, answer) = some pointer) :
    next.sets.lookup key = some pointer := by
  cases call with
  | getOrCreate other =>
    cases stepped
    rw [handedOut] at handed
    split at handed
    · cases handed
      subst other
      exact getOrCreate_holds manager key
    · cases handed
  | del | exists' | keys | clear | update => cases handed

theorem step_forgets (stepped : manager.step call = some (answer, next)) (drops : Drops key call) :
    next.sets.lookup key = none := by
  cases call with
  | del other =>
    obtain rfl : other = key := drops
    cases stepped
    exact Finmap.lookup_erase _ _
  | clear =>
    cases stepped
    exact Finmap.lookup_empty key
  | getOrCreate | exists' | keys | update => exact drops.elim

/-- A key gets a set only from the call that asks for it, and a new one. -/
theorem step_appears (stepped : manager.step call = some (answer, next))
    (absent : manager.sets.lookup key = none) (held : next.sets.lookup key = some pointer) :
    call = .getOrCreate key ∧ answer = .pointer pointer ∧ pointer = manager.objects.length := by
  obtain ⟨other, rfl, -, rfl, rfl⟩ | ⟨other, rfl, rfl⟩ | ⟨rfl, rfl⟩ |
    ⟨place, op, set, after, -, -, -, rfl⟩ | ⟨-, -, rfl⟩ := step_cases stepped
  · by_cases same : key = other
    · subst same
      rw [Finmap.lookup_insert] at held
      cases held
      exact ⟨rfl, rfl, rfl⟩
    · rw [Finmap.lookup_insert_of_ne _ same, absent] at held
      cases held
  · by_cases same : key = other
    · subst same
      cases held.symm.trans (Finmap.lookup_erase _ _)
    · rw [Finmap.lookup_erase_ne same, absent] at held
      cases held
  · cases held.symm.trans (Finmap.lookup_empty key)
  · cases held.symm.trans absent
  · cases held.symm.trans absent

/-- What happened since the key was dropped is some of what happened. -/
theorem through_sinceDrop_nil {calls : List Call} (answers : List Answer) (key : Bytes)
    {given : Nat → Prop} [DecidablePred given]
    (unused : calls.filterMap (Call.through given) = []) :
    ((sinceDrop key (calls.zip answers)).map Prod.fst).filterMap (Call.through given) = [] := by
  rw [List.filterMap_eq_nil_iff] at unused ⊢
  intro call member
  obtain ⟨entry, since, rfl⟩ := List.mem_map.mp member
  exact unused entry.1 (List.of_mem_zip ((List.rtakeWhile_suffix _ _).subset since)).1

theorem Tracks.step {calls : List Call} {answers : List Answer}
    (lengths : calls.length = answers.length) (records : Records calls manager)
    (tracks : Tracks calls answers manager key)
    (stepped : manager.step call = some (answer, next)) :
    Tracks (calls ++ [call]) (answers ++ [answer]) next key := by
  have history : (calls ++ [call]).zip (answers ++ [answer]) =
      calls.zip answers ++ [(call, answer)] := List.zip_append lengths
  by_cases drops : Drops key call
  -- The key is dropped, and its history starts anew.
  · have since : sinceDrop key (calls.zip answers ++ [(call, answer)]) = [] :=
      List.rtakeWhile_concat_neg _ _ _ (by simpa using drops)
    have forgotten := step_forgets stepped drops
    constructor
    · intro pointer
      rw [history, pointers, since, forgotten]
      exact iff_of_false List.not_mem_nil nofun
    · intro pointer held
      cases held.symm.trans forgotten
  · have since : sinceDrop key (calls.zip answers ++ [(call, answer)]) =
        sinceDrop key (calls.zip answers) ++ [(call, answer)] :=
      List.rtakeWhile_concat_pos _ _ _ (by simpa using drops)
    constructor
    · intro pointer
      rw [history, pointers, since, List.filterMap_append, List.mem_append]
      constructor
      · rintro (old | new)
        · exact step_holds stepped drops ((tracks.handed pointer).mp old)
        · obtain ⟨entry, member, handed⟩ := List.mem_filterMap.mp new
          rw [List.mem_singleton.mp member] at handed
          exact handedOut_eq_some stepped handed
      · intro held
        cases before : manager.sets.lookup key with
        | some old =>
          -- The key had a set already, and has kept it.
          obtain rfl : old = pointer :=
            Option.some.inj ((step_holds stepped drops before).symm.trans held)
          exact .inl ((tracks.handed old).mpr before)
        | none =>
          obtain ⟨rfl, rfl, -⟩ := step_appears stepped before held
          exact .inr (List.mem_filterMap.mpr ⟨_, List.mem_singleton.mpr rfl, if_pos rfl⟩)
    · intro pointer held
      rw [history, since, List.map_append, List.filterMap_append, List.filterMap_append]
      refine congrArg (· ++ _) ?_
      cases before : manager.sets.lookup key with
      | some old =>
        obtain rfl : old = pointer :=
          Option.some.inj ((step_holds stepped drops before).symm.trans held)
        exact tracks.through old before
      | none =>
        -- The set is new, and nobody had a pointer to it.
        obtain ⟨-, -, rfl⟩ := step_appears stepped before held
        have unmade := records.unmade _ (Nat.le_refl _)
        rw [unmade]
        exact through_sinceDrop_nil answers key unmade

theorem run_tracks {calls : List Call} {answers : List Answer} {manager : SortedSetManager}
    (ran : runAnswers SortedSetManager.step initial calls = some (answers, manager)) :
    Records calls manager ∧ ∀ key, Tracks calls answers manager key := by
  have start : Records [] initial := ⟨by simp [initial], fun _ _ => rfl⟩
  have empty (key : Bytes) : Tracks [] [] initial key :=
    ⟨fun pointer => by
      rw [lookup_initial]
      exact iff_of_false List.not_mem_nil nofun,
      fun _ _ => rfl⟩
  have kept := runAnswers_invariant (fun calls answers manager => calls.length = answers.length ∧
    Records calls manager ∧ ∀ key, Tracks calls answers manager key) ⟨rfl, start, empty⟩ ?_ ran
  · exact kept.2
  · intro calls answers between call answer next _ ⟨lengths, records, tracks⟩ stepped
    refine ⟨?_, records.step stepped, fun key => (tracks key).step lengths records stepped⟩
    rw [List.length_append, List.length_append, lengths, List.length_singleton,
      List.length_singleton]

/-- **Contents.** In every run of the manager and of the sets behind its pointers, a caller finds
under a key what those who asked for this key since it was last dropped have made of an empty set,
in their order: an update through an older pointer does not count, nor does one of another key's
set. -/
theorem getOrCreate_finds {calls : List Call} {answers : List Answer} {manager : SortedSetManager}
    (ran : runAnswers SortedSetManager.step initial calls = some (answers, manager))
    (key : Bytes) :
    ∃ set, (manager.getOrCreate key).2.objects[(manager.getOrCreate key).1]? = some set ∧
      SortedSet.run (updates key (calls.zip answers)) = some set := by
  obtain ⟨records, tracks⟩ := run_tracks ran
  have valid := Valid.initial.run ran
  cases held : manager.sets.lookup key with
  | none =>
    -- Nobody has a pointer of this key, so nobody has updated its set.
    have nothing : updates key (calls.zip answers) = [] := by
      refine List.filterMap_eq_nil_iff.mpr fun call _ => ?_
      have nobody (pointer : Nat) : pointer ∈ pointers key (calls.zip answers) ↔ False := by
        rw [(tracks key).handed, held]
        exact iff_of_false nofun id
      exact (through_congr nobody call).trans (through_false call)
    rw [getOrCreate_new held, nothing]
    exact ⟨.empty, List.getElem?_concat_length, rfl⟩
  | some pointer =>
    -- All that was done with the set was done since the key was last dropped.
    have mine (other : Nat) : other ∈ pointers key (calls.zip answers) ↔ other = pointer := by
      rw [(tracks key).handed, held, Option.some.injEq, eq_comm]
    have same : updates key (calls.zip answers) = calls.filterMap (Call.through (· = pointer)) :=
      (List.filterMap_congr fun call _ => through_congr mine call).trans
        ((tracks key).through pointer held)
    rw [getOrCreate_old held, same]
    have made := valid.made key pointer held
    exact ⟨_, List.getElem?_eq_getElem made,
      records.objects pointer _ (List.getElem?_eq_getElem made)⟩

/-- Two keys with a member each. The first is deleted and asked for again, and both of its sets are
updated. -/
theorem getOrCreate_finds_deleted :
    ∃ answers manager, runAnswers SortedSetManager.step initial
        [.getOrCreate (text "a"), .update 0 (.zadd (text "x") .one), .getOrCreate (text "b"),
          .update 1 (.zadd (text "y") .one), .del (text "a"), .getOrCreate (text "a"),
          .update 2 (.zadd (text "z") .zero), .update 0 (.zrem (text "x"))] =
          some (answers, manager) ∧
      ∃ set, (manager.getOrCreate (text "a")).2.objects[(manager.getOrCreate (text "a")).1]? =
          some set ∧
        SortedSet.run [.zadd (text "z") .zero] = some set :=
  ⟨_, _, rfl, @getOrCreate_finds [.getOrCreate (text "a"), .update 0 (.zadd (text "x") .one),
    .getOrCreate (text "b"), .update 1 (.zadd (text "y") .one), .del (text "a"),
    .getOrCreate (text "a"), .update 2 (.zadd (text "z") .zero), .update 0 (.zrem (text "x"))]
    _ _ rfl (text "a")⟩

end SortedSetManager
end ScuffedRedis
