import Mathlib

/-!
# The traffic generator

The intervals of `traffic.ts`. Each start makes one and keeps it in a global variable, over the one
that was there; a stop clears the interval that the variable holds.
-/
namespace ScuffedRedis

structure Traffic where
  /-- The intervals that were set and not cleared. -/
  live : List Nat
  trafficInterval : Option Nat
  /-- How many intervals were set; the next one gets this number. -/
  created : Nat

namespace Traffic

def initial : Traffic where
  live := []
  trafficInterval := none
  created := 0

def startTrafficGenerator (traffic : Traffic) : Traffic where
  live := traffic.live ++ [traffic.created]
  trafficInterval := some traffic.created
  created := traffic.created + 1

def stopTrafficGenerator (traffic : Traffic) : Traffic :=
  match traffic.trafficInterval with
  | some interval => { traffic with live := traffic.live.erase interval, trafficInterval := none }
  | none => traffic

inductive Call where
  | start
  | stop
  deriving DecidableEq

def next (traffic : Traffic) : Call → Traffic
  | .start => traffic.startTrafficGenerator
  | .stop => traffic.stopTrafficGenerator

/-- The intervals after some calls. -/
def after (calls : List Call) : Traffic := calls.foldl next initial

/-! ### The server -/

inductive Action where
  | start
  | pause
  | stop
  | unknown

/-- The requests whose handlers make calls. -/
inductive Request where
  | workshopTraffic (action : Action)
  | workshopLoadState (trafficConfig : Bool)

/-- The calls of a handler. -/
def Request.calls : Request → List Call
  | .workshopTraffic .start => [.start]
  | .workshopTraffic .pause | .workshopTraffic .stop => [.stop]
  | .workshopTraffic .unknown => []
  | .workshopLoadState trafficConfig => if trafficConfig then [.stop, .start] else [.stop]

/-- The calls of `startServer` and of the requests after it. -/
def serverCalls (requests : List Request) : List Call := .start :: requests.flatMap Request.calls

/-! ### Orphans -/

/-- After each call at most one interval is live, and after each stop none is. -/
def StopsAll (calls : List Call) : Prop :=
  ∀ before call, before ++ [call] <+: calls →
    (after (before ++ [call])).live.length ≤ 1 ∧
      (call = .stop → (after (before ++ [call])).live = [])

/-- How many starts come while the variable holds an interval, or does not to begin with. -/
def overwrites (running : Bool) : List Call → Nat
  | [] => 0
  | .start :: calls => overwrites true calls + if running then 1 else 0
  | .stop :: calls => overwrites false calls

/-- The live intervals are the orphans, which the variable has lost, and the one it holds. -/
structure Orphaned (traffic : Traffic) (orphans : List Nat) : Prop where
  live : traffic.live = orphans ++ traffic.trafficInterval.toList
  held : ∀ interval ∈ traffic.trafficInterval, interval ∉ orphans
  fresh : ∀ interval ∈ traffic.live, interval < traffic.created

theorem Orphaned.initial : Orphaned initial [] := ⟨rfl, by simp, by simp [Traffic.initial]⟩

section Orphaned

variable {traffic : Traffic} {orphans : List Nat} (orphaned : Orphaned traffic orphans)

include orphaned

/-- A start orphans the interval that the variable held. -/
theorem Orphaned.start :
    Orphaned traffic.startTrafficGenerator (orphans ++ traffic.trafficInterval.toList) := by
  refine ⟨by simp [startTrafficGenerator, orphaned.live], ?_, ?_⟩
  · rintro _ ⟨⟩ lost
    rw [← orphaned.live] at lost
    exact absurd (orphaned.fresh _ lost) (lt_irrefl _)
  · intro interval listed
    simp only [startTrafficGenerator, List.mem_append, List.mem_singleton] at listed ⊢
    rcases listed with older | rfl
    · exact Nat.lt_succ_of_lt (orphaned.fresh interval older)
    · exact Nat.lt_succ_self _

/-- A stop leaves the orphans. -/
theorem Orphaned.stop : Orphaned traffic.stopTrafficGenerator orphans ∧
    traffic.stopTrafficGenerator.trafficInterval = none := by
  obtain ⟨live, held, fresh⟩ := orphaned
  rw [stopTrafficGenerator]
  cases found : traffic.trafficInterval with
  | none => exact ⟨⟨live, held, fresh⟩, found⟩
  | some interval =>
    have lost : interval ∉ orphans := held interval found
    refine ⟨⟨?_, by simp, fun other listed => fresh other (List.mem_of_mem_erase listed)⟩, rfl⟩
    simp [live, found, List.erase_append_right _ lost]

end Orphaned

theorem Orphaned.next {traffic : Traffic} {orphans : List Nat} (orphaned : Orphaned traffic orphans)
    (call : Call) :
    ∃ orphans', Orphaned (traffic.next call) orphans' ∧
      orphans'.length =
        orphans.length + overwrites traffic.trafficInterval.isSome [call] ∧
      (traffic.next call).trafficInterval.isSome = decide (call = .start) := by
  cases call with
  | start =>
    refine ⟨_, orphaned.start, ?_, rfl⟩
    cases traffic.trafficInterval <;> simp [overwrites]
  | stop =>
    obtain ⟨orphaned', cleared⟩ := orphaned.stop
    exact ⟨orphans, orphaned', by simp [overwrites], by simp [Traffic.next, cleared]⟩

/-! ### Runs -/

theorem overwrites_cons (running : Bool) (call : Call) (calls : List Call) :
    overwrites running (call :: calls) =
      overwrites running [call] + overwrites (decide (call = .start)) calls := by
  cases call <;> simp [overwrites, Nat.add_comm]

theorem foldl_next_orphaned {traffic : Traffic} {orphans : List Nat}
    (orphaned : Orphaned traffic orphans) (calls : List Call) :
    ∃ orphans', Orphaned (calls.foldl Traffic.next traffic) orphans' ∧
      orphans'.length = orphans.length + overwrites traffic.trafficInterval.isSome calls := by
  induction calls generalizing traffic orphans with
  | nil => exact ⟨orphans, orphaned, by simp [overwrites]⟩
  | cons call calls ih =>
    obtain ⟨orphans₁, orphaned₁, length₁, running⟩ := orphaned.next call
    obtain ⟨orphans₂, orphaned₂, length₂⟩ := ih orphaned₁
    refine ⟨orphans₂, orphaned₂, ?_⟩
    rw [length₂, length₁, running, overwrites_cons _ call calls, Nat.add_assoc]

/-- How many intervals are live: one for each start that overwrote the variable, and the one in
it. -/
theorem length_live_after (calls : List Call) :
    (after calls).live.length =
      overwrites false calls + (after calls).trafficInterval.toList.length := by
  obtain ⟨orphans, orphaned, length⟩ := foldl_next_orphaned .initial calls
  rw [after, orphaned.live, List.length_append, length]
  simp [Traffic.initial]

theorem trafficInterval_after_concat (before : List Call) (call : Call) :
    (after (before ++ [call])).trafficInterval.toList.length = if call = .start then 1 else 0 := by
  obtain ⟨orphans, orphaned, -⟩ := foldl_next_orphaned .initial before
  obtain ⟨-, -, -, running⟩ := orphaned.next call
  rw [after, List.foldl_append, List.foldl_cons, List.foldl_nil]
  cases call with
  | start => rfl
  | stop => simpa using running

theorem overwrites_append (running : Bool) (first second : List Call) :
    overwrites running first ≤ overwrites running (first ++ second) := by
  induction first generalizing running with
  | nil => simp [overwrites]
  | cons call first ih =>
    rw [List.cons_append, overwrites_cons, overwrites_cons _ _ (first ++ second)]
    exact Nat.add_le_add_left (ih _) _

theorem stopsAll_iff_overwrites (calls : List Call) :
    StopsAll calls ↔ overwrites false calls = 0 := by
  constructor
  · intro stops
    induction calls using List.reverseRecOn with
    | nil => rfl
    | append_singleton before call =>
      obtain ⟨few, nothing⟩ := stops before call (List.prefix_refl _)
      have length := length_live_after (before ++ [call])
      rw [trafficInterval_after_concat] at length
      cases call with
      | start => simp at length; omega
      | stop => simpa [nothing rfl] using length.symm
  · rintro never before call ⟨rest, rfl⟩
    -- Fewer calls overwrite no more often.
    have fewer := overwrites_append false (before ++ [call]) rest
    have length := length_live_after (before ++ [call])
    rw [trafficInterval_after_concat] at length
    refine ⟨?_, fun stop => ?_⟩
    · split at length <;> omega
    · rw [if_neg (by simp [stop])] at length
      exact List.eq_nil_of_length_eq_zero (by omega)

theorem overwrites_eq_zero_iff (running : Bool) (calls : List Call) :
    overwrites running calls = 0 ↔
      (running = true → calls.head? ≠ some .start) ∧
        calls.IsChain fun first second => ¬ (first = .start ∧ second = .start) := by
  induction calls generalizing running with
  | nil => simp [overwrites]
  | cons call calls ih =>
    rw [overwrites_cons, Nat.add_eq_zero_iff, ih, List.isChain_cons]
    have apart : calls.head? ≠ some .start ↔ ∀ second ∈ calls.head?, second ≠ .start :=
      ⟨fun none second first start => none (start ▸ first), fun every first => every _ first rfl⟩
    cases call <;> cases running <;> simp_all [overwrites]

/-- **Stops stop everything exactly when no start comes directly after another.** -/
theorem stopsAll_iff (calls : List Call) :
    StopsAll calls ↔
      calls.IsChain fun first second => ¬ (first = .start ∧ second = .start) := by
  simp [stopsAll_iff_overwrites, overwrites_eq_zero_iff]

/-- The server starts the traffic, is asked to start it again, and then to pause it. -/
theorem paused_with_live_interval : ¬ ∀ requests, StopsAll (serverCalls requests) := by
  intro stops
  obtain ⟨-, nothing⟩ := stops
    [.workshopTraffic .start, .workshopTraffic .pause] [.start, .start] .stop
    (List.prefix_refl _)
  exact absurd (nothing rfl) (by decide)

end Traffic
end ScuffedRedis
