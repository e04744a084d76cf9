import ScuffedRedis.Foundation.Interleaving
import ScuffedRedis.Data.HashTableRefinement
import ScuffedRedis.Server.KvRefinement

/-!
# Commands of several threads

A command locks the table once for each key. Its responses are those of a whole command as long as
no commands have to come before one another in a cycle, by the order of their calls on one key or
by their times; otherwise a command of several keys may see the work of others half done.
-/
namespace ScuffedRedis
namespace KVStore

open Protocol Foundation

/-! ### Commands and their calls -/

/-- The commands on keys, without their options. -/
inductive KeyCommand where
  | get (key : Bytes)
  | set (key value : Bytes)
  | del (keys : List Bytes)
  | exists' (keys : List Bytes)
  deriving DecidableEq

/-- What a thread does in one step: a call of the table under its lock, or to refuse a command
without keys, for which there is none. -/
inductive TableCall where
  | get (key : Bytes)
  | set (key value : Bytes)
  | del (key : Bytes)
  | exists' (key : Bytes)
  | refuse
  deriving DecidableEq

def tableStep (table : HashTable) : TableCall → HashTable.Answer × HashTable
  | .get key => table.step (.get key)
  | .set key value => table.step (.set key value)
  | .del key => table.step (.del key)
  | .exists' key => table.step (.exists' key)
  | .refuse => (.done, table)

/-- The count of a loop over keys. -/
def found (count : Int64) (answers : List HashTable.Answer) : Int64 :=
  answers.foldl (fun count answer => if answer = .bool true then count + 1 else count) count

namespace KeyCommand

def args : KeyCommand → List Bytes
  | get key => [text "GET", key]
  | set key value => [text "SET", key, value]
  | del keys => text "DEL" :: keys
  | exists' keys => text "EXISTS" :: keys

def calls : KeyCommand → List TableCall
  | get key => [.get key]
  | set key value => [.set key value]
  | del [] => [.refuse]
  | del (key :: keys) => (key :: keys).map .del
  | exists' [] => [.refuse]
  | exists' (key :: keys) => (key :: keys).map .exists'

/-- The response from the answers to the calls. -/
def response (answers : List HashTable.Answer) : KeyCommand → Message
  | get _ =>
    match answers with
    | [.value (some value)] => Message.makeBulkString value
    | _ => nilResponse
  | set _ _ => okResponse
  | del [] => wrongNumber "DEL"
  | del (_ :: _) => Message.makeInteger (found 0 answers)
  | exists' [] => wrongNumber "EXISTS"
  | exists' (_ :: _) => Message.makeInteger (found 0 answers)

end KeyCommand

/-! ### Threads -/

/-- A command of a thread, by its number among the thread's commands. -/
structure Issued (Thread : Type*) where
  thread : Thread
  index : Nat
  command : KeyCommand
  deriving DecidableEq

section Threads

variable {Thread : Type*}

def Issued.block (issued : Issued Thread) : List (Issued Thread × TableCall) :=
  issued.command.calls.map fun call => (issued, call)

/-- The calls of the commands from this number on, one command after another. -/
def threadCalls (thread : Thread) : Nat → List KeyCommand → List (Issued Thread × TableCall)
  | _, [] => []
  | index, command :: commands =>
    Issued.block ⟨thread, index, command⟩ ++ threadCalls thread (index + 1) commands

variable [DecidableEq Thread]

/-- The calls of all threads in some order, those of each thread in its own. -/
def Interleaves (programs : Thread → List KeyCommand)
    (trace : List (Issued Thread × TableCall)) : Prop :=
  ∀ thread, trace.filter (·.1.thread = thread) = threadCalls thread 0 (programs thread)

/-- The answers to the calls in this order, and the table after them. -/
def interleaved (kv : KVStore) (trace : List (Issued Thread × TableCall)) :
    List (Issued Thread × HashTable.Answer) × HashTable :=
  runInputs (owned tableStep) kv.store trace

def responseIn (kv : KVStore) (trace : List (Issued Thread × TableCall)) (issued : Issued Thread) :
    Message :=
  issued.command.response (answersTo issued (interleaved kv trace).1)

/-- Whole commands, one at a time in this order. -/
def sequential (kv : KVStore) (order : List (Issued Thread)) : List Message × KVStore :=
  runInputs executeRaw kv (order.map fun issued => issued.command.args)

/-- The commands in this order, each as a whole, have the responses and leave the contents of the
interleaving. The order keeps to those of the threads, and a command whose last call came before the
first one of another stays before it. -/
structure Explains (programs : Thread → List KeyCommand) (kv : KVStore)
    (trace : List (Issued Thread × TableCall)) (order : List (Issued Thread)) : Prop where
  distinct : order.Nodup
  complete : ∀ issued, issued ∈ order ↔
    (programs issued.thread)[issued.index]? = some issued.command
  threadOrder : order.Pairwise fun a b => a.thread = b.thread → a.index < b.index
  realTime : order.Pairwise fun a b => ¬ Precedes trace b a
  responses : (sequential kv order).1 = order.map (responseIn kv trace)
  contents : ∀ key, (sequential kv order).2.store.get key = (interleaved kv trace).2.get key

end Threads

/-! ### Calls that depend on each other -/

namespace TableCall

def key? : TableCall → Option Bytes
  | get key | set key _ | del key | exists' key => some key
  | refuse => none

def writes : TableCall → Bool
  | set _ _ | del _ => true
  | get _ | exists' _ | refuse => false

/-- Calls on one key, of which one writes. -/
def Depends (x y : TableCall) : Prop :=
  x.key?.isSome ∧ x.key? = y.key? ∧ (x.writes = true ∨ y.writes = true)

end TableCall

/-- The calls on the contents alone. -/
def contentsStep (contents : HashTable.Contents) :
    TableCall → HashTable.Answer × HashTable.Contents
  | .get key => (.value (contents key), contents)
  | .set key value =>
    (.bool (contents key).isNone, Function.update contents key (some value))
  | .del key => (.bool (contents key).isSome, Function.update contents key none)
  | .exists' key => (.bool (contents key).isSome, contents)
  | .refuse => (.done, contents)

theorem tableStep_holds (table : HashTable) (contents : HashTable.Contents) (call : TableCall)
    (holds : table.Holds contents) :
    (tableStep table call).1 = (contentsStep contents call).1 ∧
      (tableStep table call).2.Holds (contentsStep contents call).2 := by
  cases call with
  | get key => exact ⟨congrArg HashTable.Answer.value (holds.get key), holds⟩
  | set key value =>
    obtain ⟨isNew, after⟩ := holds.set key value
    exact ⟨congrArg HashTable.Answer.bool isNew, after⟩
  | del key =>
    obtain ⟨deleted, after⟩ := holds.del key
    exact ⟨congrArg HashTable.Answer.bool deleted, after⟩
  | exists' key => exact ⟨congrArg HashTable.Answer.bool (holds.exists' key), holds⟩
  | refuse => exact ⟨rfl, holds⟩

section Contents

variable {contents contents' : HashTable.Contents} {call : TableCall} {key : Bytes}

/-- What a call answers, and what it leaves of its key, depends on its key alone. -/
theorem contentsStep_congr (same : ∀ key, call.key? = some key → contents key = contents' key) :
    (contentsStep contents call).1 = (contentsStep contents' call).1 ∧
      ∀ key, call.key? = some key →
        (contentsStep contents call).2 key = (contentsStep contents' call).2 key := by
  cases call with
  | refuse => exact ⟨rfl, fun _ nothing => by cases nothing⟩
  | get key | exists' key =>
    refine ⟨by simp only [contentsStep, same key rfl], ?_⟩
    rintro _ ⟨⟩
    exact same key rfl
  | set key value | del key =>
    refine ⟨by simp only [contentsStep, same key rfl], ?_⟩
    rintro _ ⟨⟩
    simp only [contentsStep, Function.update_self]

/-- A call leaves a key that it does not write. -/
theorem contentsStep_untouched (unwritten : call.key? = some key → call.writes = false) :
    (contentsStep contents call).2 key = contents key := by
  cases call with
  | refuse | get _ | exists' _ => rfl
  | set key' _ | del key' =>
    have different : key ≠ key' := by
      rintro rfl
      exact absurd (unwritten rfl) (by simp [TableCall.writes])
    exact Function.update_of_ne different _ _

end Contents

theorem independent_commutes (x y : TableCall) (independent : ¬ x.Depends y) :
    Commutes contentsStep x y := by
  have apart (key : Bytes) (first : x.key? = some key) (second : y.key? = some key) :
      x.writes = false ∧ y.writes = false := by
    constructor
    all_goals
      by_contra writes
      rw [Bool.not_eq_false] at writes
      refine independent ⟨by rw [first]; rfl, first.trans second.symm, ?_⟩
    · exact .inl writes
    · exact .inr writes
  intro s
  have first : ∀ key, x.key? = some key → (contentsStep s y).2 key = s key :=
    fun key named => contentsStep_untouched fun same => (apart key named same).2
  have second : ∀ key, y.key? = some key → (contentsStep s x).2 key = s key :=
    fun key named => contentsStep_untouched fun same => (apart key same named).1
  obtain ⟨answer, left⟩ := contentsStep_congr first
  obtain ⟨answer', left'⟩ := contentsStep_congr second
  refine ⟨answer, answer', funext fun key => ?_⟩
  -- At most one of the two writes the key, and it leaves there what it would have left alone.
  by_cases writes : x.key? = some key ∧ x.writes = true
  · have unwritten : y.key? = some key → y.writes = false :=
      fun same => (apart key writes.1 same).2
    rw [contentsStep_untouched unwritten, left key writes.1]
  · have unwritten : x.key? = some key → x.writes = false := by
      intro named
      by_contra written
      exact writes ⟨named, by simpa using written⟩
    have kept : (contentsStep (contentsStep s y).2 x).2 key = (contentsStep s y).2 key :=
      contentsStep_untouched unwritten
    rw [kept]
    by_cases named : y.key? = some key
    · exact left' key named
    · rw [contentsStep_untouched fun same => absurd same named, contentsStep_untouched unwritten,
        contentsStep_untouched fun same => absurd same named]

/-! ### A command without interruption -/

section Alone

variable {kv : KVStore} {store : HashTable} {contents : HashTable.Contents}

theorem deleteKeys_calls (holds : store.Holds contents) (deleted : Int64) (keys : List Bytes) :
    (deleteKeys store deleted keys).1 =
        found deleted (runInputs contentsStep contents (keys.map .del)).1 ∧
      (deleteKeys store deleted keys).2.Holds
        (runInputs contentsStep contents (keys.map .del)).2 := by
  induction keys generalizing store contents deleted with
  | nil => exact ⟨rfl, holds⟩
  | cons key keys ih =>
    obtain ⟨answer, after⟩ := holds.del key
    obtain ⟨count, last⟩ := ih after (if (store.del key).1 then deleted + 1 else deleted)
    refine ⟨?_, last⟩
    rw [deleteKeys, count, answer, List.map_cons, runInputs_cons, found, found, List.foldl_cons]
    simp only [contentsStep, HashTable.Answer.bool.injEq]

theorem countKeys_calls (holds : store.Holds contents) (count : Int64) (keys : List Bytes) :
    countKeys store count keys =
        found count (runInputs contentsStep contents (keys.map .exists')).1 ∧
      (runInputs contentsStep contents (keys.map .exists')).2 = contents := by
  induction keys generalizing count with
  | nil => exact ⟨rfl, rfl⟩
  | cons key keys ih =>
    obtain ⟨total, kept⟩ := ih (if store.exists' key then count + 1 else count)
    refine ⟨?_, kept⟩
    rw [countKeys, total, holds.exists', List.map_cons, runInputs_cons, found, found,
      List.foldl_cons]
    simp only [contentsStep, HashTable.Answer.bool.injEq]

theorem executeRaw_of_lookup {name : Bytes} {handler : Handler}
    (known : handlers.lookup (toUpper name) = some handler) (kv : KVStore) (args : List Bytes) :
    kv.executeRaw (name :: args) = handler kv (name :: args) := by
  simp only [executeRaw, known]

/-- A command responds by the answers to its calls, and the calls do all that it does to the
store. -/
theorem executeRaw_calls (holds : kv.store.Holds contents) (command : KeyCommand) :
    (kv.executeRaw command.args).1 =
        command.response (runInputs contentsStep contents command.calls).1 ∧
      (kv.executeRaw command.args).2.store.Holds
        (runInputs contentsStep contents command.calls).2 := by
  have get : handlers.lookup (toUpper (text "GET")) = some handleGet := rfl
  have set : handlers.lookup (toUpper (text "SET")) = some handleSet := rfl
  have del : handlers.lookup (toUpper (text "DEL")) = some handleDel := rfl
  have exists' : handlers.lookup (toUpper (text "EXISTS")) = some handleExists := rfl
  cases command with
  | get key =>
    rw [KeyCommand.args, executeRaw_of_lookup get, handleGet]
    simp only [holds.get key]
    cases value : contents key with
    | none =>
      refine ⟨?_, holds⟩
      simp [KeyCommand.response, KeyCommand.calls, contentsStep, value]
    | some value' =>
      refine ⟨?_, holds⟩
      simp [KeyCommand.response, KeyCommand.calls, contentsStep, value]
  | set key value =>
    rw [KeyCommand.args, executeRaw_of_lookup set]
    exact ⟨rfl, (holds.set key value).2⟩
  | del keys =>
    -- Without keys the handler refuses, and with keys it goes through the loop.
    rw [KeyCommand.args, executeRaw_of_lookup del]
    cases keys with
    | nil => exact ⟨rfl, holds⟩
    | cons key keys =>
      obtain ⟨count, after⟩ := deleteKeys_calls holds 0 (key :: keys)
      exact ⟨congrArg Message.makeInteger count, after⟩
  | exists' keys =>
    rw [KeyCommand.args, executeRaw_of_lookup exists']
    cases keys with
    | nil => exact ⟨rfl, holds⟩
    | cons key keys =>
      obtain ⟨count, kept⟩ := countKeys_calls holds 0 (key :: keys)
      refine ⟨congrArg Message.makeInteger count, ?_⟩
      rw [KeyCommand.calls, kept]
      exact holds

end Alone

/-! ### The calls of a thread -/

section Threads

variable {Thread : Type*} {programs : Thread → List KeyCommand}
  {trace : List (Issued Thread × TableCall)}

theorem calls_ne_nil (command : KeyCommand) : command.calls ≠ [] := by
  rcases command with _ | _ | (_ | _) | (_ | _) <;> exact List.cons_ne_nil _ _

theorem index_of_mem_threadCalls {thread : Thread} {index : Nat} {commands : List KeyCommand}
    {x : Issued Thread × TableCall} (listed : x ∈ threadCalls thread index commands) :
    x.1.thread = thread ∧ index ≤ x.1.index := by
  induction commands generalizing index with
  | nil => cases listed
  | cons command commands ih =>
    rcases List.mem_append.mp listed with block | later
    · obtain ⟨call, -, rfl⟩ := List.mem_map.mp block
      exact ⟨rfl, le_refl _⟩
    · obtain ⟨own, beyond⟩ := ih later
      exact ⟨own, by omega⟩

/-- A thread goes through its commands in order. -/
theorem pairwise_threadCalls (thread : Thread) (index : Nat) (commands : List KeyCommand) :
    (threadCalls thread index commands).Pairwise fun x y => x.1.index ≤ y.1.index := by
  induction commands generalizing index with
  | nil => exact .nil
  | cons command commands ih =>
    refine List.pairwise_append.mpr ⟨?_, ih (index + 1), ?_⟩
    · exact List.pairwise_map.mpr (List.pairwise_of_forall fun _ _ => le_refl index)
    · intro x first y later
      obtain ⟨call, -, rfl⟩ := List.mem_map.mp first
      have beyond := (index_of_mem_threadCalls later).2
      change index ≤ y.1.index
      omega

variable [DecidableEq Thread]

theorem filter_block (other issued : Issued Thread) :
    other.block.filter (·.1 = issued) = if other = issued then issued.block else [] := by
  by_cases same : other = issued
  · rw [if_pos same, same]
    refine List.filter_eq_self.mpr fun x listed => ?_
    obtain ⟨call, -, rfl⟩ := List.mem_map.mp listed
    exact decide_eq_true rfl
  · rw [if_neg same]
    refine List.filter_eq_nil_iff.mpr fun x listed => ?_
    obtain ⟨call, -, rfl⟩ := List.mem_map.mp listed
    simpa using same

/-- The calls of a command are one block of its thread. -/
theorem filter_threadCalls (issued : Issued Thread) (index : Nat) (commands : List KeyCommand) :
    (threadCalls issued.thread index commands).filter (·.1 = issued) =
      if index ≤ issued.index ∧ commands[issued.index - index]? = some issued.command then
        issued.block
      else [] := by
  induction commands generalizing index with
  | nil => simp [threadCalls]
  | cons command commands ih =>
    rw [threadCalls, List.filter_append, filter_block, ih]
    by_cases here : index = issued.index
    · -- The command is this one, or there is none by its name.
      subst here
      by_cases same : command = issued.command
      · simp [same]
      · have other : (⟨issued.thread, issued.index, command⟩ : Issued Thread) ≠ issued :=
          fun equal => same (congrArg Issued.command equal)
        simp [same, other]
    · -- The command stands further on, or its number has passed.
      have other : (⟨issued.thread, index, command⟩ : Issued Thread) ≠ issued :=
        fun equal => here (congrArg Issued.index equal)
      rw [if_neg other, List.nil_append]
      by_cases later : index + 1 ≤ issued.index
      · have next : issued.index - index = issued.index - (index + 1) + 1 := by omega
        have still : index ≤ issued.index := by omega
        rw [next, List.getElem?_cons_succ]
        simp only [later, still, true_and]
      · have before : ¬ index ≤ issued.index := by omega
        simp only [later, before, false_and]

/-- The interleaving has exactly the calls of the threads' commands. -/
theorem Interleaves.filter (interleaves : Interleaves programs trace) (issued : Issued Thread) :
    trace.filter (·.1 = issued) =
      if (programs issued.thread)[issued.index]? = some issued.command then issued.block
      else [] := by
  have own : trace.filter (·.1 = issued) =
      (trace.filter (·.1.thread = issued.thread)).filter (·.1 = issued) := by
    rw [List.filter_filter]
    refine List.filter_congr fun x _ => ?_
    by_cases same : x.1 = issued
    · simp [same]
    · simp [same]
  rw [own, interleaves issued.thread, filter_threadCalls]
  simp only [Nat.zero_le, Nat.sub_zero, true_and]

theorem Interleaves.mem_iff (interleaves : Interleaves programs trace) (issued : Issued Thread) :
    issued ∈ trace.map Prod.fst ↔
      (programs issued.thread)[issued.index]? = some issued.command := by
  have calls := interleaves.filter issued
  constructor
  · intro listed
    obtain ⟨x, taken, rfl⟩ := List.mem_map.mp listed
    by_contra unknown
    rw [if_neg unknown] at calls
    exact List.filter_eq_nil_iff.mp calls x taken (decide_eq_true rfl)
  · intro known
    rw [if_pos known] at calls
    -- Every command has a call, so one of its calls is in the trace.
    obtain ⟨call, first⟩ := List.exists_mem_of_ne_nil _ (calls_ne_nil issued.command)
    have block : (issued, call) ∈ issued.block := List.mem_map_of_mem first
    rw [← calls] at block
    exact List.mem_map_of_mem (List.mem_filter.mp block).1

/-- Of two commands of a thread, the calls of the first come first. -/
theorem Interleaves.precedes (interleaves : Interleaves programs trace) {a b : Issued Thread}
    (first : a ∈ trace.map Prod.fst) (second : b ∈ trace.map Prod.fst)
    (same : a.thread = b.thread) (earlier : a.index < b.index) : Precedes trace a b := by
  refine ⟨first, second, ?_⟩
  have sorted := pairwise_threadCalls b.thread 0 (programs b.thread)
  rw [← interleaves b.thread, List.pairwise_filter] at sorted
  refine sorted.imp ?_
  intro x y inOrder here there
  have ordered := inOrder (by simp [here]) (by simp [there, same])
  rw [here, there] at ordered
  omega

/-- Whole commands respond as their calls do when these come in blocks. -/
theorem sequential_serial {order : List (Issued Thread)} (distinct : order.Nodup)
    (blocks : ∀ issued ∈ order, trace.filter (·.1 = issued) = issued.block) {kv : KVStore}
    {contents : HashTable.Contents} (holds : kv.store.Holds contents) :
    (sequential kv order).1 = (order.map fun issued => issued.command.response
        (answersTo issued (runInputs (owned contentsStep) contents (serial order trace)).1)) ∧
      (sequential kv order).2.store.Holds
        (runInputs (owned contentsStep) contents (serial order trace)).2 := by
  induction order generalizing kv contents with
  | nil => exact ⟨rfl, holds⟩
  | cons issued order ih =>
    rw [List.nodup_cons] at distinct
    rw [List.forall_mem_cons] at blocks
    obtain ⟨response, after⟩ := executeRaw_calls holds issued.command
    obtain ⟨responses, last⟩ := ih distinct.2 blocks.2 after
    obtain ⟨state, answers⟩ := runInputs_alone contentsStep issued contents issued.command.calls
    have split : serial (issued :: order) trace = issued.block ++ serial order trace := by
      rw [serial, List.flatMap_cons, blocks.1]
      rfl
    -- The first command gets no answers from the later blocks, and the others none from its block.
    have absent : issued ∉ (serial order trace).map Prod.fst := by
      intro listed
      obtain ⟨x, taken, named⟩ := List.mem_map.mp listed
      obtain ⟨other, inOrder, taken⟩ := List.mem_flatMap.mp taken
      have owner : x.1 = other := by simpa using (List.mem_filter.mp taken).2
      rw [← named, owner] at distinct
      exact distinct.1 inOrder
    rw [split, runInputs_append]
    change (runInputs (owned contentsStep) contents issued.block).2 = _ at state
    rw [state]
    refine ⟨?_, last⟩
    rw [sequential, List.map_cons, runInputs_cons, List.map_cons]
    refine congrArg₂ List.cons ?_ ?_
    · rw [response, answersTo_append, answersTo_absent absent, List.append_nil]
      exact congrArg issued.command.response answers.symm
    · refine responses.trans (List.map_congr_left fun other listed => ?_)
      have others : other ∉ issued.block.map Prod.fst := by
        intro named
        obtain ⟨x, taken, rfl⟩ := List.mem_map.mp named
        obtain ⟨call, -, rfl⟩ := List.mem_map.mp taken
        exact distinct.1 listed
      rw [answersTo_append, answersTo_absent others, List.nil_append]

theorem run_holds (history : List (List Bytes)) :
    ∃ contents, (runInputs executeRaw initial history).2.store.Holds contents := by
  obtain ⟨m, -, refines⟩ := runInputs_simulates
    (fun (kv : KVStore) m => HashTable.Refines kv.store m) executeRaw_refines
    initial_refines history
  exact ⟨_, .of_refines refines⟩

omit [DecidableEq Thread] in
theorem owned_holds (table : HashTable) (contents : HashTable.Contents)
    (call : Issued Thread × TableCall) (holds : table.Holds contents) :
    (owned tableStep table call).1 = (owned contentsStep contents call).1 ∧
      (owned tableStep table call).2.Holds (owned contentsStep contents call).2 := by
  obtain ⟨answer, next⟩ := tableStep_holds table contents call.2 holds
  exact ⟨congrArg (Prod.mk call.1) answer, next⟩

/-- **Atomicity.** If no commands have to come before one another in a cycle, their responses and
the final contents are those of whole commands in some order. -/
theorem exists_explains (history : List (List Bytes)) (interleaves : Interleaves programs trace)
    (acyclic : ∀ issued, ¬ Relation.TransGen (Before TableCall.Depends trace) issued issued) :
    ∃ order, Explains programs (runInputs executeRaw initial history).2 trace order := by
  obtain ⟨order, distinct, complete, realTime, sameRun⟩ :=
    exists_serial independent_commutes acyclic
  obtain ⟨contents, holds⟩ := run_holds history
  generalize (runInputs executeRaw initial history).2 = kv at holds
  have known : ∀ issued, issued ∈ order ↔
      (programs issued.thread)[issued.index]? = some issued.command :=
    fun issued => (complete issued).trans (interleaves.mem_iff issued)
  obtain ⟨responses, final⟩ := sequential_serial distinct
    (fun issued listed => by rw [interleaves.filter, if_pos ((known issued).mp listed)]) holds
  -- The table answers as the contents do, and the contents as in the serial order.
  obtain ⟨answers, last⟩ := runInputs_related HashTable.Holds owned_holds holds trace
  have same := sameRun contents
  refine ⟨order, distinct, known, ?_, realTime, ?_, ?_⟩
  · refine (realTime.and distinct).imp_of_mem ?_
    intro a b first second apart thread
    by_contra notBefore
    rcases Nat.lt_or_ge b.index a.index with later | before
    · exact apart.1 (interleaves.precedes ((complete b).mp second) ((complete a).mp first)
        thread.symm later)
    · -- Two commands of a thread with one number are one command.
      have index : a.index = b.index := by omega
      have command := (known a).mp first
      rw [thread, index, (known b).mp second] at command
      cases a
      cases b
      cases thread
      cases index
      cases command
      exact apart.2 rfl
  · rw [responses]
    refine List.map_congr_left fun issued _ => ?_
    rw [responseIn, interleaved, answers]
    exact congrArg issued.command.response (same.answers issued).symm
  · intro key
    rw [final.get, ← same.state]
    exact (last.get key).symm

/-- Commands of one call each never have to come before one another in a cycle. -/
theorem single_acyclic (interleaves : Interleaves programs trace)
    (single : ∀ thread, ∀ command ∈ programs thread, command.calls.length = 1)
    (issued : Issued Thread) :
    ¬ Relation.TransGen (Before TableCall.Depends trace) issued issued := by
  refine acyclic_of_nodup (List.nodup_iff_count_le_one.mpr fun issued => ?_) issued
  have count : (trace.map Prod.fst).count issued = (trace.filter (·.1 = issued)).length := by
    rw [List.count, List.countP_map, List.countP_eq_length_filter]
    rfl
  rw [count, interleaves.filter]
  split
  next known =>
    rw [Issued.block, List.length_map, single _ _ (List.mem_of_getElem? known)]
  next => exact Nat.zero_le 1

end Threads

/-! ### Two threads -/

/-- A SET on another key between the two keys of an EXISTS. -/
def apart : List (Issued Bool × TableCall) :=
  [(⟨false, 0, .exists' [text "a", text "b"]⟩, .exists' (text "a")),
    (⟨true, 0, .set (text "c") (text "1")⟩, .set (text "c") (text "1")),
    (⟨false, 0, .exists' [text "a", text "b"]⟩, .exists' (text "b"))]

theorem apart_not_before (a b : Issued Bool) : ¬ Before TableCall.Depends apart a b := by
  rintro ⟨different, ⟨first, second, precedes⟩ | conflicts⟩
  · simp only [apart, List.map_cons, List.map_nil, List.mem_cons, List.not_mem_nil, or_false]
      at first second
    -- The call of the SET is between those of the EXISTS, so neither command precedes the other.
    rcases first with rfl | rfl | rfl <;> rcases second with rfl | rfl | rfl
    all_goals first
      | exact different rfl
      | exact absurd precedes (by decide)
  · refine conflicts ?_
    have independent : apart.Pairwise fun x y => x.2.key? ≠ y.2.key? := by decide
    exact independent.imp fun keys _ _ depends => keys depends.2.1

theorem exists_explains_apart :
    ∃ order, Explains
      (fun thread => if thread then [.set (text "c") (text "1")]
        else [.exists' [text "a", text "b"]])
      (runInputs executeRaw initial []).2 apart order :=
  exists_explains [] (by rintro (_ | _) <;> decide) (by
    intro issued cycle
    obtain ⟨other, before, -⟩ := Relation.TransGen.head'_iff.mp cycle
    exact apart_not_before issued other before)

/-- Between the two keys of an EXISTS, the first is deleted and then the second is set. Only the
first was there before, and only the second is there afterwards, but both are counted. -/
theorem exists_counts_both :
    ¬ ∀ (history : List (List Bytes)) (programs : Bool → List KeyCommand)
      (trace : List (Issued Bool × TableCall)), Interleaves programs trace →
      ∃ order, Explains programs (runInputs executeRaw initial history).2 trace order := by
  intro always
  obtain ⟨order, explains⟩ := always [[text "SET", text "a", text "1"]]
    (fun thread => if thread then [.del [text "a"], .set (text "b") (text "1")]
      else [.exists' [text "a", text "b"]])
    [(⟨false, 0, .exists' [text "a", text "b"]⟩, .exists' (text "a")),
      (⟨true, 0, .del [text "a"]⟩, .del (text "a")),
      (⟨true, 1, .set (text "b") (text "1")⟩, .set (text "b") (text "1")),
      (⟨false, 0, .exists' [text "a", text "b"]⟩, .exists' (text "b"))]
    (by rintro (_ | _) <;> decide)
  have perm : order.Perm [⟨false, 0, .exists' [text "a", text "b"]⟩, ⟨true, 0, .del [text "a"]⟩,
      ⟨true, 1, .set (text "b") (text "1")⟩] := by
    refine (List.perm_ext_iff_of_nodup explains.distinct (by decide)).mpr fun issued => ?_
    rw [explains.complete]
    obtain ⟨thread, index, command⟩ := issued
    rcases thread with _ | _ <;> rcases index with _ | _ | index <;> simp [eq_comm]
  obtain ⟨x, y, z, rfl⟩ := List.length_eq_three.mp perm.length_eq
  have first := perm.mem_iff.mp (List.mem_cons_self (a := x))
  have second := perm.mem_iff.mp (List.mem_cons_of_mem x (List.mem_cons_self (a := y)))
  have third := perm.mem_iff.mp
    (List.mem_cons_of_mem x (List.mem_cons_of_mem y (List.mem_cons_self (a := z))))
  simp only [List.mem_cons, List.not_mem_nil, or_false] at first second third
  have counts := congrArg (List.map Message.asInteger) explains.responses
  have distinct := explains.distinct
  have threadOrder := explains.threadOrder
  -- Whichever way the commands are ordered, the EXISTS counts one key or none.
  rcases first with rfl | rfl | rfl <;> rcases second with rfl | rfl | rfl <;>
    rcases third with rfl | rfl | rfl
  all_goals first
    | exact absurd distinct (by decide)
    | exact absurd threadOrder (by decide)
    | exact absurd counts (by decide)

end KVStore
end ScuffedRedis
