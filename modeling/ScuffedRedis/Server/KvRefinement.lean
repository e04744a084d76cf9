import ScuffedRedis.Server.KvStore
import ScuffedRedis.Data.HashTableLaws
import ScuffedRedis.Foundation.Simulation

/-!
# The key-value store is a finite map

`KvSpec` says what a finite map answers to a command, in whatever letter case its name is
written. The handlers are checked against it one by one, and runs by simulation.
-/
namespace ScuffedRedis

open Protocol Foundation

namespace KVStore

/-- The numbers of arguments each command takes, its name included. -/
def arities : List (Bytes × (Nat → Bool)) :=
  [(text "GET", (· == 2)),
    (text "SET", (3 ≤ ·)),
    (text "DEL", (2 ≤ ·)),
    (text "EXISTS", (2 ≤ ·)),
    (text "KEYS", (· == 2)),
    (text "PING", fun count => count == 1 || count == 2),
    (text "ECHO", (· == 2)),
    (text "FLUSHDB", (· == 1)),
    (text "DBSIZE", (· == 1)),
    (text "INFO", fun _ => true)]

/-- The error text for a request that is not a command with a right number of arguments. -/
def refusal : List Bytes → Option Bytes
  | [] => some (text "ERR empty command")
  | name :: operands =>
    match arities.lookup (toUpper name) with
    | none => some (text "ERR unknown command '" ++ name ++ text "'")
    | some accepts =>
      if accepts (operands.length + 1) then none
      else some (text "ERR wrong number of arguments for '" ++ toUpper name ++ text "'")

/-- `KvSpec m args answer next`: a finite map answers a request and moves on. The order of
the keys in the answer to KEYS and the report of INFO are left open. -/
inductive KvSpec (m : KeyMap) : List Bytes → Message → KeyMap → Prop
  | refused {args error} : refusal args = some error → KvSpec m args (errorResponse error) m
  | getBound {name key value} : toUpper name = text "GET" → m.lookup key = some value →
      KvSpec m [name, key] (Message.makeBulkString value) m
  | getUnbound {name key} : toUpper name = text "GET" → m.lookup key = none →
      KvSpec m [name, key] nilResponse m
  | set {name key value options} : toUpper name = text "SET" →
      KvSpec m (name :: key :: value :: options) okResponse (m.insert key value)
  | del {name} {keys : List Bytes} {next : KeyMap} : toUpper name = text "DEL" → keys ≠ [] →
      (∀ key, next.lookup key = if key ∈ keys then none else m.lookup key) →
      KvSpec m (name :: keys)
        (Message.makeInteger (Int64.ofNat (m.keys ∩ keys.toFinset).card)) next
  | exists' {name} {keys : List Bytes} : toUpper name = text "EXISTS" → keys ≠ [] →
      KvSpec m (name :: keys)
        (Message.makeInteger (Int64.ofNat (keys.countP (decide <| · ∈ m)))) m
  | keys {name pattern} {found : List Bytes} : toUpper name = text "KEYS" → found.Nodup →
      (∀ key, key ∈ found ↔ key ∈ m ∧ matchesPattern key pattern) →
      KvSpec m [name, pattern]
        (Message.makeArray (found.map fun key => some (Message.makeBulkString key))) m
  | ping {name} : toUpper name = text "PING" → KvSpec m [name] pongResponse m
  | pingWith {name message} : toUpper name = text "PING" →
      KvSpec m [name, message] (Message.makeBulkString message) m
  | echo {name message} : toUpper name = text "ECHO" →
      KvSpec m [name, message] (Message.makeBulkString message) m
  | flushdb {name} : toUpper name = text "FLUSHDB" → KvSpec m [name] okResponse ∅
  | dbsize {name} : toUpper name = text "DBSIZE" →
      KvSpec m [name] (Message.makeInteger (Int64.ofNat m.keys.card)) m
  | info {name operands report} : toUpper name = text "INFO" →
      KvSpec m (name :: operands) (Message.makeBulkString report) m

/-! ### The loops over keys -/

theorem add_ofNat_succ (sum : Int64) (n : Nat) :
    sum + 1 + Int64.ofNat n = sum + Int64.ofNat (n + 1) := by
  rw [Int64.ofNat_add, Int64.add_assoc, Int64.add_comm 1]
  rfl

/-- The present keys of a list, when its first key is taken out. -/
theorem card_inter_cons (m : KeyMap) (key : Bytes) (keys : List Bytes) :
    (m.keys ∩ (key :: keys).toFinset).card =
      ((m.erase key).keys ∩ keys.toFinset).card + if key ∈ m then 1 else 0 := by
  rw [Finmap.keys_erase, List.toFinset_cons]
  by_cases present : key ∈ m
  · rw [if_pos present, Finset.inter_insert_of_mem (Finmap.mem_keys.mpr present),
      ← Finset.card_insert_of_notMem (a := key) (by simp)]
    congr 1
    ext other
    by_cases same : other = key <;> simp [same]
  · have absent : key ∉ m.keys := fun listed => present (Finmap.mem_keys.mp listed)
    rw [if_neg present, Finset.inter_insert_of_notMem absent, Finset.erase_eq_of_notMem absent,
      Nat.add_zero]

theorem deleteKeys_refines {store : HashTable} {m : KeyMap} (refines : HashTable.Refines store m)
    (deleted : Int64) (keys : List Bytes) :
    ∃ next, (∀ key, next.lookup key = if key ∈ keys then none else m.lookup key) ∧
      (deleteKeys store deleted keys).1 =
        deleted + Int64.ofNat (m.keys ∩ keys.toFinset).card ∧
      HashTable.Refines (deleteKeys store deleted keys).2 next := by
  induction keys generalizing store m deleted with
  | nil => exact ⟨m, by simp, by simp [deleteKeys], refines⟩
  | cons key keys ih =>
    obtain ⟨found, removed⟩ := HashTable.del_refines refines key
    obtain ⟨next, lookup, count, after⟩ :=
      ih removed (if (store.del key).1 then deleted + 1 else deleted)
    -- The keys after the first are deleted from the map without it.
    refine ⟨next, fun other => ?_, ?_, after⟩
    · rw [lookup other, lookup_erase_eq]
      by_cases listed : other ∈ keys
      · rw [if_pos listed, if_pos (List.mem_cons_of_mem _ listed)]
      · rw [if_neg listed]
        by_cases same : key = other
        · rw [if_pos same, if_pos (by simp [same])]
        · rw [if_neg same, if_neg (by simp [Ne.symm same, listed])]
    · rw [card_inter_cons]
      refine count.trans ?_
      rw [found]
      by_cases present : key ∈ m
      · rw [decide_eq_true present, if_pos rfl, if_pos present, add_ofNat_succ]
      · rw [decide_eq_false present, if_neg Bool.false_ne_true, if_neg present, Nat.add_zero]

theorem countKeys_eq {store : HashTable} {m : KeyMap} (refines : HashTable.Refines store m)
    (count : Int64) (keys : List Bytes) :
    countKeys store count keys = count + Int64.ofNat (keys.countP (decide <| · ∈ m)) := by
  induction keys generalizing count with
  | nil => simp [countKeys]
  | cons key keys ih =>
    rw [countKeys, ih, HashTable.exists_eq refines, List.countP_cons]
    by_cases present : key ∈ m
    · rw [decide_eq_true present, if_pos rfl, if_pos rfl, add_ofNat_succ]
    · rw [decide_eq_false present, if_neg Bool.false_ne_true, if_neg Bool.false_ne_true,
        Nat.add_zero]

/-! ### The handlers -/

/-- A handler does what `KvSpec` says of the command `cmd`. -/
def Implements (cmd : Bytes) (handler : Handler) : Prop :=
  ∀ kv m name operands, HashTable.Refines kv.store m → toUpper name = cmd →
    ∃ next, KvSpec m (name :: operands) (handler kv (name :: operands)).1 next ∧
      HashTable.Refines (handler kv (name :: operands)).2.store next

theorem text_append (first second : String) :
    text (first ++ second) = text first ++ text second := by
  rw [text, String.toList_append, List.map_append]
  rfl

/-- A wrong number of arguments is refused, and nothing changes. -/
theorem wrongNumber_refused {m : KeyMap} {name : Bytes} {cmd : String} {operands : List Bytes}
    {accepts : Nat → Bool} (named : toUpper name = text cmd)
    (listed : arities.lookup (text cmd) = some accepts)
    (rejects : accepts (operands.length + 1) = false) :
    KvSpec m (name :: operands) (wrongNumber cmd) m := by
  apply KvSpec.refused
  rw [refusal, named, listed, text_append, text_append]
  exact if_neg (ne_true_of_eq_false rejects)

theorem handleGet_implements : Implements (text "GET") handleGet := by
  intro kv m name operands refines named
  rcases operands with _ | ⟨key, _ | ⟨extra, rest⟩⟩
  · exact ⟨m, wrongNumber_refused named rfl rfl, refines⟩
  · have read := HashTable.get_eq refines key
    cases bound : m.lookup key with
    | some value =>
      rw [bound] at read
      rw [handleGet, read]
      exact ⟨m, .getBound named bound, refines⟩
    | none =>
      rw [bound] at read
      rw [handleGet, read]
      exact ⟨m, .getUnbound named bound, refines⟩
  · exact ⟨m, wrongNumber_refused named rfl rfl, refines⟩

theorem handleSet_implements : Implements (text "SET") handleSet := by
  intro kv m name operands refines named
  rcases operands with _ | ⟨key, _ | ⟨value, options⟩⟩
  · exact ⟨m, wrongNumber_refused named rfl rfl, refines⟩
  · exact ⟨m, wrongNumber_refused named rfl rfl, refines⟩
  · obtain ⟨-, written⟩ := HashTable.set_refines refines key value
    exact ⟨m.insert key value, .set named, written⟩

theorem handleDel_implements : Implements (text "DEL") handleDel := by
  intro kv m name operands refines named
  rcases operands with _ | ⟨key, keys⟩
  · exact ⟨m, wrongNumber_refused named rfl rfl, refines⟩
  · obtain ⟨next, lookup, count, after⟩ := deleteKeys_refines refines 0 (key :: keys)
    rw [Int64.zero_add] at count
    refine ⟨next, ?_, after⟩
    have answer : (handleDel kv (name :: key :: keys)).1 =
        Message.makeInteger (deleteKeys kv.store 0 (key :: keys)).1 := rfl
    rw [answer, count]
    exact .del named (List.cons_ne_nil _ _) lookup

theorem handleExists_implements : Implements (text "EXISTS") handleExists := by
  intro kv m name operands refines named
  rcases operands with _ | ⟨key, keys⟩
  · exact ⟨m, wrongNumber_refused named rfl rfl, refines⟩
  · refine ⟨m, ?_, refines⟩
    have answer : (handleExists kv (name :: key :: keys)).1 =
        Message.makeInteger (countKeys kv.store 0 (key :: keys)) := rfl
    rw [answer, countKeys_eq refines, Int64.zero_add]
    exact .exists' named (List.cons_ne_nil _ _)

theorem handleKeys_implements : Implements (text "KEYS") handleKeys := by
  intro kv m name operands refines named
  rcases operands with _ | ⟨pattern, _ | ⟨extra, rest⟩⟩
  · exact ⟨m, wrongNumber_refused named rfl rfl, refines⟩
  · obtain ⟨nodup, accepted⟩ := HashTable.keys_spec refines pattern
    exact ⟨m, .keys named nodup accepted, refines⟩
  · exact ⟨m, wrongNumber_refused named rfl rfl, refines⟩

theorem handlePing_implements : Implements (text "PING") handlePing := by
  intro kv m name operands refines named
  rcases operands with _ | ⟨message, _ | ⟨extra, rest⟩⟩
  · exact ⟨m, .ping named, refines⟩
  · exact ⟨m, .pingWith named, refines⟩
  · exact ⟨m, wrongNumber_refused named rfl rfl, refines⟩

theorem handleEcho_implements : Implements (text "ECHO") handleEcho := by
  intro kv m name operands refines named
  rcases operands with _ | ⟨message, _ | ⟨extra, rest⟩⟩
  · exact ⟨m, wrongNumber_refused named rfl rfl, refines⟩
  · exact ⟨m, .echo named, refines⟩
  · exact ⟨m, wrongNumber_refused named rfl rfl, refines⟩

theorem handleFlushdb_implements : Implements (text "FLUSHDB") handleFlushdb := by
  intro kv m name operands refines named
  rcases operands with _ | ⟨extra, rest⟩
  · exact ⟨∅, .flushdb named, HashTable.clear_refines refines⟩
  · exact ⟨m, wrongNumber_refused named rfl rfl, refines⟩

theorem handleDbsize_implements : Implements (text "DBSIZE") handleDbsize := by
  intro kv m name operands refines named
  rcases operands with _ | ⟨extra, rest⟩
  · refine ⟨m, ?_, refines⟩
    have answer : (handleDbsize kv [name]).1 =
        Message.makeInteger (Int64.ofNat kv.store.size) := rfl
    rw [answer, HashTable.size_eq refines]
    exact .dbsize named
  · exact ⟨m, wrongNumber_refused named rfl rfl, refines⟩

theorem handleInfo_implements : Implements (text "INFO") handleInfo := by
  intro kv m name operands refines named
  exact ⟨m, .info named, refines⟩

theorem handlers_implement : ∀ entry ∈ handlers, Implements entry.1 entry.2 := by
  simp only [handlers, List.forall_mem_cons]
  exact ⟨handleGet_implements, handleSet_implements, handleDel_implements,
    handleExists_implements, handleKeys_implements, handlePing_implements,
    handleEcho_implements, handleFlushdb_implements, handleDbsize_implements,
    handleInfo_implements, fun _ listed => absurd listed List.not_mem_nil⟩

/-! ### Dispatch -/

/-- The specification and the dispatch table know the same names. -/
theorem arities_lookup_none {cmd : Bytes} (unknown : handlers.lookup cmd = none) :
    arities.lookup cmd = none := by
  have sameNames : arities.map Prod.fst = handlers.map Prod.fst := rfl
  rw [List.lookup_eq_none_iff] at unknown ⊢
  intro entry listed
  have named : entry.1 ∈ handlers.map Prod.fst := by
    rw [← sameNames]
    exact List.mem_map_of_mem listed
  obtain ⟨other, registered, same⟩ := List.mem_map.mp named
  rw [← same]
  exact unknown other registered

theorem mem_of_lookup {cmd : Bytes} {handler : Handler}
    (registered : handlers.lookup cmd = some handler) : (cmd, handler) ∈ handlers := by
  obtain ⟨before, after, split, -⟩ := List.lookup_eq_some_iff.mp registered
  rw [split]
  exact List.mem_append_right _ List.mem_cons_self

/-- One request is one step of the finite map. -/
theorem executeRaw_refines (kv : KVStore) (m : KeyMap) (args : List Bytes)
    (refines : HashTable.Refines kv.store m) :
    ∃ next, KvSpec m args (kv.executeRaw args).1 next ∧
      HashTable.Refines (kv.executeRaw args).2.store next := by
  cases args with
  | nil => exact ⟨m, .refused rfl, refines⟩
  | cons name operands =>
    rw [executeRaw]
    cases known : handlers.lookup (toUpper name) with
    | none =>
      refine ⟨m, .refused ?_, refines⟩
      rw [refusal, arities_lookup_none known]
    | some handler =>
      exact handlers_implement _ (mem_of_lookup known) kv m name operands refines rfl

/-! ### Errors -/

section Named

variable {m next : KeyMap} {key value : Bytes} {answer : Message}

/-- A command with a right number of arguments is not refused. -/
theorem not_refused {args : List Bytes} {error : Bytes} (accepted : refusal args = none)
    (refused : refusal args = some error) : False := by
  rw [accepted] at refused
  cases refused

theorem kvSpec_set {options : List Bytes}
    (answered : KvSpec m (text "SET" :: key :: value :: options) answer next) :
    answer = okResponse ∧ next = m.insert key value := by
  cases answered with
  | refused refused => exact (not_refused rfl refused).elim
  | set => exact ⟨rfl, rfl⟩
  | del other | exists' other | info other => exact absurd other (by decide)

theorem kvSpec_get (answered : KvSpec m [text "GET", key] answer next) :
    answer = ((m.lookup key).map Message.makeBulkString).getD nilResponse ∧ next = m := by
  cases answered with
  | refused refused => exact (not_refused rfl refused).elim
  | getBound _ bound =>
    rw [bound]
    exact ⟨rfl, rfl⟩
  | getUnbound _ unbound =>
    rw [unbound]
    exact ⟨rfl, rfl⟩
  | del other | exists' other | info other | keys other | pingWith other | echo other =>
    exact absurd other (by decide)

theorem card_inter_singleton (m : KeyMap) (key : Bytes) :
    (m.keys ∩ [key].toFinset).card = if key ∈ m then 1 else 0 := by
  rw [card_inter_cons, List.toFinset_nil, Finset.inter_empty, Finset.card_empty, Nat.zero_add]

theorem kvSpec_del (answered : KvSpec m [text "DEL", key] answer next) :
    answer = Message.makeInteger (if key ∈ m then 1 else 0) ∧ next = m.erase key := by
  cases answered with
  | refused refused => exact (not_refused rfl refused).elim
  | del _ _ lookup =>
    constructor
    · rw [card_inter_singleton]
      by_cases present : key ∈ m
      · rw [if_pos present, if_pos present]
        rfl
      · rw [if_neg present, if_neg present]
        rfl
    · apply Finmap.ext_lookup
      intro other
      rw [lookup, lookup_erase_eq]
      simp only [List.mem_singleton, eq_comm]
  | getBound other | getUnbound other | exists' other | info other | keys other
  | pingWith other | echo other => exact absurd other (by decide)

theorem kvSpec_exists (answered : KvSpec m [text "EXISTS", key] answer next) :
    answer = Message.makeInteger (if key ∈ m then 1 else 0) ∧ next = m := by
  cases answered with
  | refused refused => exact (not_refused rfl refused).elim
  | exists' =>
    refine ⟨?_, rfl⟩
    by_cases present : key ∈ m
    · simp [present]
    · simp [present]
  | getBound other | getUnbound other | del other | info other | keys other | pingWith other
  | echo other => exact absurd other (by decide)

theorem kvSpec_keys {pattern : Bytes} (answered : KvSpec m [text "KEYS", pattern] answer next) :
    (∃ found : List Bytes, found.Nodup ∧
      (∀ key, key ∈ found ↔ key ∈ m ∧ matchesPattern key pattern) ∧
      answer = Message.makeArray (found.map fun key => some (Message.makeBulkString key))) ∧
    next = m := by
  cases answered with
  | refused refused => exact (not_refused rfl refused).elim
  | keys _ nodup listed => exact ⟨⟨_, nodup, listed, rfl⟩, rfl⟩
  | getBound other | getUnbound other | del other | exists' other | info other | pingWith other
  | echo other => exact absurd other (by decide)

theorem kvSpec_ping (answered : KvSpec m [text "PING"] answer next) :
    answer = pongResponse ∧ next = m := by
  cases answered with
  | refused refused => exact (not_refused rfl refused).elim
  | ping => exact ⟨rfl, rfl⟩
  | del _ empty | exists' _ empty => exact absurd rfl empty
  | flushdb other | dbsize other | info other => exact absurd other (by decide)

theorem kvSpec_flushdb (answered : KvSpec m [text "FLUSHDB"] answer next) :
    answer = okResponse ∧ next = ∅ := by
  cases answered with
  | refused refused => exact (not_refused rfl refused).elim
  | flushdb => exact ⟨rfl, rfl⟩
  | del _ empty | exists' _ empty => exact absurd rfl empty
  | ping other | dbsize other | info other => exact absurd other (by decide)

theorem kvSpec_dbsize (answered : KvSpec m [text "DBSIZE"] answer next) :
    answer = Message.makeInteger (Int64.ofNat m.keys.card) ∧ next = m := by
  cases answered with
  | refused refused => exact (not_refused rfl refused).elim
  | dbsize => exact ⟨rfl, rfl⟩
  | del _ empty | exists' _ empty => exact absurd rfl empty
  | ping other | flushdb other | info other => exact absurd other (by decide)

theorem kvSpec_info (answered : KvSpec m [text "INFO"] answer next) :
    (∃ report, answer = Message.makeBulkString report) ∧ next = m := by
  cases answered with
  | refused refused => exact (not_refused rfl refused).elim
  | info => exact ⟨⟨_, rfl⟩, rfl⟩
  | del _ empty | exists' _ empty => exact absurd rfl empty
  | ping other | flushdb other | dbsize other => exact absurd other (by decide)

end Named

/-! ### Runs -/

theorem initial_refines : HashTable.Refines initial.store ∅ := HashTable.empty_refines (by decide)

end KVStore
end ScuffedRedis
