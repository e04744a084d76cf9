import ScuffedRedis.Data.HashTableRefinement

/-!
# Programs that move tables

A table that is moved from has no buckets, and `hash()` divides by their number. `load_factor`
has a case for a table without buckets, so `set` comes as far as `hash()` too. Which tables have
buckets depends on the moves of a program alone.
-/
namespace ScuffedRedis

/-! ### Moves between places -/

section Places

variable {α β : Type*}

/-- A new place takes what is in `source`, where `vacant` is left. -/
def moveOut (vacant : α) (places : List α) (source : Nat) : List α :=
  places.set source vacant ++ [places.getD source vacant]

/-- `target` takes what is in `source`, where `vacant` is left. Moving to itself changes nothing. -/
def moveOver (vacant : α) (places : List α) (target source : Nat) : List α :=
  if target = source then places
  else (places.set target (places.getD source vacant)).set source vacant

variable (f : α → β) (vacant : α) (places : List α) (target source : Nat)

theorem map_moveOut :
    (moveOut vacant places source).map f = moveOut (f vacant) (places.map f) source := by
  rw [moveOut, moveOut, List.map_append, List.map_set, List.getD_map]
  rfl

theorem map_moveOver :
    (moveOver vacant places target source).map f =
      moveOver (f vacant) (places.map f) target source := by
  rw [moveOver, moveOver]
  split
  · rfl
  · rw [List.map_set, List.map_set, List.getD_map]

theorem set_getD : places.set source (places.getD source vacant) = places := by
  rcases Nat.lt_or_ge source places.length with inside | outside
  · rw [List.getD_eq_getElem _ _ inside, List.set_getElem_self]
  · exact List.set_eq_of_length_le outside

end Places

namespace HashTable

open Foundation

/-! ### The source's moves -/

/-- A table that was moved from: the vector is left empty, and the size is set to zero. -/
def movedFrom : HashTable where
  buckets := []
  size := 0

/-- The move constructor: the new table, and `other` after it. -/
def moveConstruct (other : HashTable) : HashTable × HashTable :=
  ({ buckets := other.buckets, size := other.size }, { buckets := [], size := 0 })

/-- The move assignment from another table: this table, and `other` after it. -/
def moveAssign (other : HashTable) : HashTable × HashTable :=
  ({ buckets := other.buckets, size := other.size }, { buckets := [], size := 0 })

/-- The number of buckets by which `hash()` divides, in a call that evaluates it. -/
def divisor (table : HashTable) : Op → Option Nat
  | .set _ _ => some (if table.overloaded then table.resize else table).buckets.length
  | .get _ => some table.buckets.length
  | .del _ => some table.buckets.length
  | .exists' _ => some table.buckets.length
  | .clear => none
  | .size => none
  | .keys => none

/-- Tables are named by their place in the order in which they were constructed. -/
inductive Statement where
  | construct (initialCapacity : UInt64)
  | moveConstruct (source : Nat)
  | moveAssign (target source : Nat)
  | call (target : Nat) (op : Op)
  | keys (target : Nat) (pattern : Bytes)

/-- How a program may stop in a statement. -/
inductive Halt where
  | divisionByZero
  | endless
  deriving DecidableEq

/-- What a statement answers, and the tables after it. A program names only tables that it has
constructed; here any other would be one without buckets. -/
def execute (tables : List HashTable) : Statement → Except Halt (Answer × List HashTable)
  | .construct initialCapacity =>
    match construct 60 initialCapacity with
    | some table => .ok (.done, tables ++ [table])
    | none => .error .endless
  | .moveConstruct source =>
    let (table, other) := moveConstruct (tables.getD source movedFrom)
    .ok (.done, tables.set source other ++ [table])
  | .moveAssign target source =>
    if target = source then .ok (.done, tables)
    else
      let (table, other) := moveAssign (tables.getD source movedFrom)
      .ok (.done, (tables.set target table).set source other)
  | .call target op =>
    let table := tables.getD target movedFrom
    if table.divisor op = some 0 then .error .divisionByZero
    else
      let (answer, next) := table.step op
      .ok (answer, tables.set target next)
  | .keys target pattern => .ok (.keys ((tables.getD target movedFrom).keys pattern), tables)

/-- The answers up to where the program stops, and how it ends. -/
def execution (tables : List HashTable) :
    List Statement → List Answer × Except Halt (List HashTable)
  | [] => ([], .ok tables)
  | stmt :: rest =>
    match execute tables stmt with
    | .ok (answer, next) =>
      let (answers, ending) := execution next rest
      (answer :: answers, ending)
    | .error halt => ([], .error halt)

/-! ### Maps that are moved -/

/-- A map that was moved from is empty. -/
def MovesSpec (maps : List KeyMap) : Statement → Answer → List KeyMap → Prop
  | .construct _, answer, next => answer = .done ∧ next = maps ++ [∅]
  | .moveConstruct source, answer, next => answer = .done ∧ next = moveOut ∅ maps source
  | .moveAssign target source, answer, next =>
    answer = .done ∧ next = moveOver ∅ maps target source
  | .call target op, answer, next =>
    ∃ m, MapSpec (maps.getD target ∅) op answer m ∧ next = maps.set target m
  | .keys target pattern, answer, next =>
    (∃ keys, answer = .keys keys ∧ keys.Nodup ∧
      ∀ key, key ∈ keys ↔ key ∈ maps.getD target ∅ ∧ matchesPattern key pattern = true) ∧
    next = maps

/-- `hash()` never divides by zero, and every answer is that of maps of which one that was moved
from is empty. -/
def Usable (program : List Statement) : Prop :=
  (execution [] program).2 ≠ .error .divisionByZero ∧
    ∃ maps, SpecRun MovesSpec [] (program.take (execution [] program).1.length)
      (execution [] program).1 maps

/-! ### Which tables have buckets -/

def Op.hashes : Op → Bool
  | .set _ _ | .get _ | .del _ | .exists' _ => true
  | .clear | .size | .keys => false

namespace Statement

/-- The capacity is beyond `2^63`, so the constructor does not end. -/
def endless : Statement → Bool
  | .construct initialCapacity => decide (2 ^ 63 < initialCapacity.toNat)
  | _ => false

/-- The table whose buckets `hash()` needs. -/
def needs : Statement → Option Nat
  | .call target op => if op.hashes then some target else none
  | _ => none

/-- Which tables have no buckets, after a statement. -/
def vacancies (vacant : List Bool) : Statement → List Bool
  | .construct _ => vacant ++ [false]
  | .moveConstruct source => moveOut true vacant source
  | .moveAssign target source => moveOver true vacant target source
  | .call _ _ => vacant
  | .keys _ _ => vacant

/-- No set, get, del or exists of a table without buckets. -/
def Supplied (vacant : List Bool) (stmt : Statement) : Prop :=
  ∀ target, stmt.needs = some target → vacant.getD target true = false

end Statement

/-- Every statement finds the buckets that it needs, up to a constructor that does not end. -/
def Careful (vacant : List Bool) : List Statement → Prop
  | [] => True
  | stmt :: rest =>
    stmt.endless = true ∨ stmt.Supplied vacant ∧ Careful (stmt.vacancies vacant) rest

/-! ### Tables with and without buckets -/

/-- A place of the program: a table without buckets and the empty map, or a table that stands for a
map. -/
structure Cell where
  vacant : Bool
  table : HashTable
  contents : KeyMap
  stands : if vacant then table = movedFrom ∧ contents = ∅ else Refines table contents

namespace Cell

def none : Cell where
  vacant := true
  table := movedFrom
  contents := ∅
  stands := ⟨rfl, rfl⟩

def of {table : HashTable} {m : KeyMap} (refines : Refines table m) : Cell where
  vacant := false
  table := table
  contents := m
  stands := refines

end Cell

theorem divisor_movedFrom (op : Op) :
    movedFrom.divisor op = if op.hashes then some 0 else none := by
  cases op <;> rfl

theorem divisor_ne_zero {table : HashTable} (valid : Valid table) (op : Op) :
    table.divisor op ≠ some 0 := by
  have buckets : table.buckets.length ≠ 0 := valid.capacity.ne'
  have resized : table.resize.buckets.length ≠ 0 := by
    have twice := (resize_spec valid).1
    omega
  cases op with
  | set key value =>
    rw [divisor]
    split
    · simpa using resized
    · simpa using buckets
  | get key => simpa [divisor] using buckets
  | del key => simpa [divisor] using buckets
  | exists' key => simpa [divisor] using buckets
  | clear => simp [divisor]
  | size => simp [divisor]
  | keys => simp [divisor]

/-- Without buckets a call that does not hash answers as the empty map, and changes nothing. -/
theorem step_movedFrom {op : Op} (hashless : op.hashes = false) :
    MapSpec ∅ op (movedFrom.step op).1 ∅ ∧ (movedFrom.step op).2 = movedFrom := by
  cases op with
  | clear => exact ⟨⟨rfl, rfl⟩, rfl⟩
  | size => exact ⟨⟨rfl, rfl⟩, rfl⟩
  | keys =>
    have nothing (key : Bytes) : key ∈ ([] : List Bytes) ↔ key ∈ (∅ : KeyMap) :=
      iff_of_false List.not_mem_nil Finmap.notMem_empty
    exact ⟨⟨⟨[], rfl, List.nodup_nil, nothing⟩, rfl⟩, rfl⟩
  | _ => cases hashless

/-- A call on one cell. -/
theorem Cell.step_spec (cell : Cell) (op : Op) :
    (cell.table.divisor op = some 0 ↔ op.hashes = true ∧ cell.vacant = true) ∧
      (cell.table.divisor op ≠ some 0 → ∃ next : Cell, next.vacant = cell.vacant ∧
        next.table = (cell.table.step op).2 ∧
          MapSpec cell.contents op (cell.table.step op).1 next.contents) := by
  obtain ⟨vacant, table, contents, stands⟩ := cell
  cases vacant with
  | true =>
    obtain ⟨rfl, rfl⟩ : table = movedFrom ∧ contents = ∅ := stands
    refine ⟨by rw [divisor_movedFrom]; simp, fun undivided => ?_⟩
    have hashless : op.hashes = false := by
      rw [divisor_movedFrom] at undivided
      simpa using undivided
    obtain ⟨answered, same⟩ := step_movedFrom hashless
    exact ⟨.none, rfl, same.symm, answered⟩
  | false =>
    have refines : Refines table contents := stands
    refine ⟨by simp [divisor_ne_zero refines.valid], fun _ => ?_⟩
    obtain ⟨next, answered, after⟩ := step_refines table contents op refines
    exact ⟨.of after, rfl, rfl, answered⟩

/-- The keys of a cell. -/
theorem Cell.keys_spec (cell : Cell) (pattern : Bytes) :
    (cell.table.keys pattern).Nodup ∧
      ∀ key, key ∈ cell.table.keys pattern ↔
        key ∈ cell.contents ∧ matchesPattern key pattern = true := by
  obtain ⟨vacant, table, contents, stands⟩ := cell
  cases vacant with
  | true =>
    obtain ⟨rfl, rfl⟩ : table = movedFrom ∧ contents = ∅ := stands
    exact ⟨List.nodup_nil, fun key =>
      iff_of_false List.not_mem_nil fun accepted => Finmap.notMem_empty accepted.1⟩
  | false => exact HashTable.keys_spec (show Refines table contents from stands) pattern

section Getters

variable (cells : List Cell) (target : Nat)

theorem Cell.getD_vacant :
    (cells.map Cell.vacant).getD target true = (cells.getD target .none).vacant :=
  List.getD_map cells Cell.none Cell.vacant

theorem Cell.getD_table :
    (cells.map Cell.table).getD target movedFrom = (cells.getD target .none).table :=
  List.getD_map cells Cell.none Cell.table

theorem Cell.getD_contents :
    (cells.map Cell.contents).getD target ∅ = (cells.getD target .none).contents :=
  List.getD_map cells Cell.none Cell.contents

end Getters

/-- The loop of the constructor ends within 60 iterations or not at all. -/
theorem construct_none_iff (initialCapacity : UInt64) :
    construct 60 initialCapacity = none ↔ 2 ^ 63 < initialCapacity.toNat := by
  constructor
  · intro never
    by_contra bounded
    obtain ⟨k, -, -, constructed⟩ := construct_eq (not_lt.mp bounded)
    rw [constructed 60 (le_refl 60)] at never
    cases never
  · intro beyond
    rw [construct, roundUp_endless beyond (.inr ⟨4, by omega, rfl⟩)]
    rfl

/-! ### Statements and programs -/

/-- The statement answers as the maps do, and leaves cells again. -/
def Answered (cells : List Cell) (stmt : Statement) : Prop :=
  ∃ (answer : Answer) (next : List Cell),
    execute (cells.map Cell.table) stmt = .ok (answer, next.map Cell.table) ∧
      stmt.vacancies (cells.map Cell.vacant) = next.map Cell.vacant ∧
        MovesSpec (cells.map Cell.contents) stmt answer (next.map Cell.contents)

section Statements

variable (cells : List Cell) (target source : Nat)

theorem construct_answered {initialCapacity : UInt64}
    (bounded : initialCapacity.toNat ≤ 2 ^ 63) : Answered cells (.construct initialCapacity) := by
  obtain ⟨k, -, -, constructed⟩ := construct_eq bounded
  refine ⟨.done, cells ++ [.of (empty_refines (Nat.two_pow_pos k))], ?_, ?_, rfl, ?_⟩
  · simp [execute, constructed, Cell.of]
  · simp [Statement.vacancies, Cell.of]
  · simp [Cell.of]

theorem moveConstruct_answered : Answered cells (.moveConstruct source) := by
  refine ⟨.done, moveOut .none cells source, ?_, ?_, rfl, ?_⟩
  · rw [map_moveOut]
    rfl
  · simp [Statement.vacancies, map_moveOut, Cell.none]
  · simp [map_moveOut, Cell.none]

theorem moveAssign_answered : Answered cells (.moveAssign target source) := by
  refine ⟨.done, moveOver .none cells target source, ?_, ?_, rfl, ?_⟩
  · rw [map_moveOver, execute, moveOver]
    split
    · rfl
    · rfl
  · simp [Statement.vacancies, map_moveOver, Cell.none]
  · simp [map_moveOver, Cell.none]

theorem keys_answered (pattern : Bytes) : Answered cells (.keys target pattern) := by
  obtain ⟨nodup, accepted⟩ := (cells.getD target .none).keys_spec pattern
  refine ⟨.keys ((cells.getD target .none).table.keys pattern), cells, ?_, rfl, ?_, rfl⟩
  · rw [execute, Cell.getD_table]
  · exact ⟨_, rfl, nodup, fun key => by rw [accepted, Cell.getD_contents]⟩

/-- The buckets that a call needs are there exactly if `hash()` does not divide by zero. -/
theorem supplied_call_iff (op : Op) :
    (Statement.call target op).Supplied (cells.map Cell.vacant) ↔
      (cells.getD target .none).table.divisor op ≠ some 0 := by
  obtain ⟨divided, -⟩ := (cells.getD target .none).step_spec op
  rw [ne_eq, divided, ← Cell.getD_vacant, Statement.Supplied, Statement.needs]
  cases op.hashes <;> simp

theorem call_answered {op : Op}
    (undivided : (cells.getD target .none).table.divisor op ≠ some 0) :
    Answered cells (.call target op) := by
  obtain ⟨-, steps⟩ := (cells.getD target .none).step_spec op
  obtain ⟨next, sameVacancy, nextTable, answered⟩ := steps undivided
  refine ⟨((cells.getD target .none).table.step op).1, cells.set target next, ?_, ?_,
    next.contents, ?_, ?_⟩
  · rw [execute, Cell.getD_table, List.map_set, nextTable]
    exact if_neg undivided
  · rw [List.map_set, sameVacancy, ← Cell.getD_vacant, set_getD]
    rfl
  · rwa [Cell.getD_contents]
  · exact List.map_set

theorem call_divides {op : Op}
    (divided : (cells.getD target .none).table.divisor op = some 0) :
    execute (cells.map Cell.table) (.call target op) = .error .divisionByZero := by
  rw [execute, Cell.getD_table]
  exact if_pos divided

end Statements

/-- A statement without needs is supplied. -/
theorem supplied_of_needs {stmt : Statement} (needless : stmt.needs = none) (vacant : List Bool) :
    stmt.Supplied vacant := by
  intro target needed
  rw [needless] at needed
  cases needed

/-- A statement does not end, or it lacks the buckets it needs and divides by zero, or it is
answered. -/
theorem execute_spec (cells : List Cell) (stmt : Statement) :
    (stmt.endless = true ∧ execute (cells.map Cell.table) stmt = .error .endless) ∨
      stmt.endless = false ∧
        ((¬ stmt.Supplied (cells.map Cell.vacant) ∧
            execute (cells.map Cell.table) stmt = .error .divisionByZero) ∨
          stmt.Supplied (cells.map Cell.vacant) ∧ Answered cells stmt) := by
  cases stmt with
  | construct initialCapacity =>
    rcases Nat.lt_or_ge (2 ^ 63) initialCapacity.toNat with beyond | bounded
    · left
      have never := (construct_none_iff initialCapacity).mpr beyond
      exact ⟨decide_eq_true beyond, by rw [execute, never]⟩
    · right
      exact ⟨decide_eq_false (not_lt.mpr bounded),
        .inr ⟨supplied_of_needs rfl _, construct_answered cells bounded⟩⟩
  | moveConstruct source =>
    exact .inr ⟨rfl, .inr ⟨supplied_of_needs rfl _, moveConstruct_answered cells source⟩⟩
  | moveAssign target source =>
    exact .inr ⟨rfl, .inr ⟨supplied_of_needs rfl _, moveAssign_answered cells target source⟩⟩
  | call target op =>
    right
    refine ⟨rfl, ?_⟩
    by_cases divided : (cells.getD target .none).table.divisor op = some 0
    · left
      exact ⟨fun supplied => (supplied_call_iff cells target op).mp supplied divided,
        call_divides cells target divided⟩
    · right
      exact ⟨(supplied_call_iff cells target op).mpr divided, call_answered cells target divided⟩
  | keys target pattern =>
    exact .inr ⟨rfl, .inr ⟨supplied_of_needs rfl _, keys_answered cells target pattern⟩⟩

/-- From any cells: a careful program answers as the maps do, and one that is not divides by
zero. -/
theorem execution_spec (cells : List Cell) (program : List Statement) :
    (Careful (cells.map Cell.vacant) program →
      (execution (cells.map Cell.table) program).2 ≠ .error .divisionByZero ∧
        ∃ maps, SpecRun MovesSpec (cells.map Cell.contents)
          (program.take (execution (cells.map Cell.table) program).1.length)
          (execution (cells.map Cell.table) program).1 maps) ∧
    (¬ Careful (cells.map Cell.vacant) program →
      (execution (cells.map Cell.table) program).2 = .error .divisionByZero) := by
  induction program generalizing cells with
  | nil =>
    refine ⟨fun _ => ⟨by simp [execution], cells.map Cell.contents, .nil _⟩, ?_⟩
    intro careless
    exact absurd trivial careless
  | cons stmt rest ih =>
    rw [execution, Careful]
    rcases execute_spec cells stmt with ⟨endless, stopped⟩ | ⟨ends, step⟩
    · rw [stopped]
      refine ⟨fun _ => ⟨by simp, cells.map Cell.contents, .nil _⟩, ?_⟩
      intro careless
      exact absurd (.inl endless) careless
    · -- The statement ends, so it stops the program only if buckets are missing.
      rcases step with ⟨missing, stopped⟩ | ⟨supplied, answer, next, executed, vacancies, answered⟩
      · rw [stopped]
        refine ⟨?_, fun _ => rfl⟩
        rintro (endless | ⟨supplied, -⟩)
        · rw [ends] at endless
          cases endless
        · exact absurd supplied missing
      · obtain ⟨kept, lost⟩ := ih next
        rw [executed, vacancies]
        constructor
        · rintro (endless | ⟨-, careful⟩)
          · rw [ends] at endless
            cases endless
          · obtain ⟨undivided, maps, ran⟩ := kept careful
            exact ⟨undivided, maps, .cons answered ran⟩
        · intro careless
          exact lost fun careful => careless (.inr ⟨supplied, careful⟩)

/-- **Tables stay usable after moves exactly in careful programs.** -/
theorem usable_iff (program : List Statement) : Usable program ↔ Careful [] program := by
  obtain ⟨kept, lost⟩ := execution_spec [] program
  constructor
  · intro usable
    by_contra careless
    exact usable.1 (lost careless)
  · exact kept

/-- A get from a table that was moved from. -/
theorem get_from_moved_divides_by_zero : ¬ ∀ program : List Statement, Usable program := by
  intro usable
  obtain ⟨undivided, -⟩ :=
    usable [.construct 16, .moveConstruct 0, .call 0 (.get (text "k"))]
  exact undivided rfl

end HashTable
end ScuffedRedis
