import Mathlib

/-!
# Runs of a state machine and simulation

A machine answers each input and moves on. An abstract machine is a relation, so that it
may leave part of an answer open. If every step of the machine is one of the abstract
machine, every run is.
-/
namespace Foundation

variable {σ ι ο α : Type*}

/-- The answers to a list of inputs and the state after them. -/
def runInputs (step : σ → ι → ο × σ) : σ → List ι → List ο × σ
  | state, [] => ([], state)
  | state, input :: inputs =>
    let (answer, next) := step state input
    let (answers, last) := runInputs step next inputs
    (answer :: answers, last)

@[simp] theorem runInputs_nil (step : σ → ι → ο × σ) (state : σ) :
    runInputs step state [] = ([], state) := rfl

@[simp] theorem runInputs_cons (step : σ → ι → ο × σ) (state : σ) (input : ι) (inputs : List ι) :
    runInputs step state (input :: inputs) =
      ((step state input).1 :: (runInputs step (step state input).2 inputs).1,
        (runInputs step (step state input).2 inputs).2) := rfl

theorem runInputs_append (step : σ → ι → ο × σ) (state : σ) (first second : List ι) :
    runInputs step state (first ++ second) =
      ((runInputs step state first).1 ++ (runInputs step (runInputs step state first).2 second).1,
        (runInputs step (runInputs step state first).2 second).2) := by
  induction first generalizing state with
  | nil => rfl
  | cons input inputs ih => simp [ih]

theorem length_runInputs (step : σ → ι → ο × σ) (state : σ) (inputs : List ι) :
    (runInputs step state inputs).1.length = inputs.length := by
  induction inputs generalizing state with
  | nil => rfl
  | cons input inputs ih => rw [runInputs_cons, List.length_cons, List.length_cons, ih]

/-- What every step keeps, every run keeps. -/
theorem runInputs_invariant {step : σ → ι → ο × σ} {holds : σ → Prop}
    (preserved : ∀ state input, holds state → holds (step state input).2) {state : σ}
    (initial : holds state) (inputs : List ι) : holds (runInputs step state inputs).2 := by
  induction inputs generalizing state with
  | nil => exact initial
  | cons input inputs ih => exact ih (preserved state input initial)

/-- Runs of a partial step. If the step is defined for the allowed inputs wherever the invariant
holds, and keeps it, then every run over allowed inputs ends in the invariant. -/
theorem foldlM_invariant (step : σ → ι → Option σ) {holds : σ → Prop} (allowed : ι → Prop)
    (preserved : ∀ state input, holds state → allowed input →
      ∃ next, step state input = some next ∧ holds next)
    {state : σ} (initial : holds state) {inputs : List ι} (each : ∀ input ∈ inputs, allowed input) :
    ∃ last, inputs.foldlM step state = some last ∧ holds last := by
  induction inputs generalizing state with
  | nil => exact ⟨state, rfl, initial⟩
  | cons input inputs ih =>
    rw [List.forall_mem_cons] at each
    obtain ⟨next, stepped, kept⟩ := preserved state input initial each.1
    obtain ⟨last, rest, holds⟩ := ih kept each.2
    refine ⟨last, ?_, holds⟩
    rw [List.foldlM_cons, stepped]
    exact rest

/-- A run of a partial step that ends somewhere ends in what its steps keep. -/
theorem foldlM_some_invariant {step : σ → ι → Option σ} {holds : σ → Prop}
    (preserved : ∀ state input next, holds state → step state input = some next → holds next)
    {state last : σ} (initial : holds state) {inputs : List ι}
    (ran : inputs.foldlM step state = some last) : holds last := by
  induction inputs generalizing state with
  | nil => simp_all
  | cons input inputs ih =>
    rw [List.foldlM_cons, Option.bind_eq_bind, Option.bind_eq_some_iff] at ran
    obtain ⟨next, stepped, rest⟩ := ran
    exact ih (preserved state input next initial stepped) rest

/-! ### Runs that may fail -/

section Fallible

variable {ε : Type*} {step : σ → ι → Except ε σ} {state : σ}

/-- The prefixes of a run that goes through go through. -/
theorem foldlM_append_ok {before after : List ι} {last : σ}
    (ran : (before ++ after).foldlM step state = .ok last) :
    ∃ reached, before.foldlM step state = .ok reached ∧ after.foldlM step reached = .ok last := by
  rw [List.foldlM_append] at ran
  cases reached : before.foldlM step state with
  | error failure =>
    rw [reached] at ran
    cases ran
  | ok middle =>
    rw [reached] at ran
    exact ⟨middle, rfl, ran⟩

/-- What every step keeps that goes through, of the inputs so far and the state, every run
keeps. -/
theorem foldlM_ok_invariant (holds : List ι → σ → Prop) (initial : holds [] state)
    (preserved : ∀ before input reached next, before.foldlM step state = .ok reached →
      holds before reached → step reached input = .ok next → holds (before ++ [input]) next)
    {inputs : List ι} {last : σ} (ran : inputs.foldlM step state = .ok last) :
    holds inputs last := by
  induction inputs using List.reverseRecOn generalizing last with
  | nil =>
    cases ran
    exact initial
  | append_singleton before input ih =>
    obtain ⟨middle, reached, stepped⟩ := foldlM_append_ok ran
    refine preserved before input middle last reached (ih reached) ?_
    rw [← stepped]
    exact (List.foldlM_cons.trans (bind_pure _)).symm

/-- A run that fails does so at a step, after which there are no more. -/
theorem foldlM_error_iff {inputs : List ι} {failure : ε} :
    inputs.foldlM step state = .error failure ↔
      ∃ before input after reached, inputs = before ++ input :: after ∧
        before.foldlM step state = .ok reached ∧ step reached input = .error failure := by
  constructor
  · intro failed
    induction inputs generalizing state with
    | nil => cases failed
    | cons input inputs ih =>
      rw [List.foldlM_cons] at failed
      cases stepped : step state input with
      | error failure' =>
        rw [stepped] at failed
        exact ⟨[], input, inputs, state, rfl, rfl, by rw [stepped]; exact failed⟩
      | ok next =>
        -- The step that fails is one of the others.
        rw [stepped] at failed
        obtain ⟨before, input', after, reached, split, ran, failure'⟩ := ih failed
        refine ⟨input :: before, input', after, reached, by rw [split, List.cons_append], ?_,
          failure'⟩
        rw [List.foldlM_cons, stepped]
        exact ran
  · rintro ⟨before, input, after, reached, rfl, ran, failed⟩
    rw [List.foldlM_append, ran]
    change (input :: after).foldlM step reached = _
    rw [List.foldlM_cons, failed]
    rfl

/-- A step that also keeps a record runs as the step without it. -/
theorem foldlM_view {τ : Type*} {watched : τ → ι → Except ε τ} {view : τ → σ}
    (agrees : ∀ t input, (watched t input).map view = step (view t) input) (t : τ)
    (inputs : List ι) : (inputs.foldlM watched t).map view = inputs.foldlM step (view t) := by
  induction inputs generalizing t with
  | nil => rfl
  | cons input inputs ih =>
    rw [List.foldlM_cons, List.foldlM_cons, ← agrees]
    cases watched t input with
    | error failure => rfl
    | ok next => exact ih next

end Fallible

section Prefixes

variable {input : ι} {inputs : List ι}

/-- What holds of a list cut before its first input and behind it holds of every cut. -/
theorem forall_append_cons {holds : List ι → List ι → Prop} :
    (∀ before after, input :: inputs = before ++ after → holds before after) ↔
      holds [] (input :: inputs) ∧
        ∀ before after, inputs = before ++ after → holds (input :: before) after := by
  constructor
  · intro every
    exact ⟨every [] (input :: inputs) rfl, fun before after split =>
      every (input :: before) after (by rw [split, List.cons_append])⟩
  · rintro ⟨first, rest⟩ before after split
    cases before with
    | nil =>
      cases split
      exact first
    | cons head before =>
      rw [List.cons_append, List.cons.injEq] at split
      obtain ⟨rfl, split⟩ := split
      exact rest before after split

/-- The same for the parts before and after an input. -/
theorem forall_append_cons_cons {holds : List ι → ι → List ι → Prop} :
    (∀ before next after, input :: inputs = before ++ next :: after → holds before next after) ↔
      holds [] input inputs ∧
        ∀ before next after, inputs = before ++ next :: after →
          holds (input :: before) next after := by
  constructor
  · intro every
    exact ⟨every [] input inputs rfl, fun before next after split =>
      every (input :: before) next after (by rw [split, List.cons_append])⟩
  · rintro ⟨first, rest⟩ before next after split
    cases before with
    | nil =>
      cases split
      exact first
    | cons head before =>
      rw [List.cons_append, List.cons.injEq] at split
      obtain ⟨rfl, split⟩ := split
      exact rest before next after split

/-- The same for the prefixes of a list. -/
theorem forall_prefix_cons {holds : List ι → Prop} :
    (∀ before, before <+: input :: inputs → holds before) ↔
      holds [] ∧ ∀ before, before <+: inputs → holds (input :: before) := by
  have parts (list : List ι) (holds : List ι → Prop) : (∀ before, before <+: list → holds before) ↔
      ∀ before after, list = before ++ after → holds before :=
    ⟨fun every before after split => every before ⟨after, split.symm⟩,
      fun every before ⟨after, split⟩ => every before after split.symm⟩
  rw [parts, parts, forall_append_cons]

/-- The same for a prefix and the input that follows it. -/
theorem forall_prefix_concat_cons {holds : List ι → ι → Prop} :
    (∀ before next, before ++ [next] <+: input :: inputs → holds before next) ↔
      holds [] input ∧
        ∀ before next, before ++ [next] <+: inputs → holds (input :: before) next := by
  have parts (list : List ι) (holds : List ι → ι → Prop) :
      (∀ before next, before ++ [next] <+: list → holds before next) ↔
        ∀ before next after, list = before ++ next :: after → holds before next :=
    ⟨fun every before next after split => every before next ⟨after, by simp [split]⟩,
      fun every before next ⟨after, split⟩ => every before next after (by simp [← split])⟩
  rw [parts, parts, forall_append_cons_cons]

end Prefixes

/-- The run goes through, and the property holds in every state of it. -/
def Throughout (step : σ → ι → Option σ) (holds : σ → Prop) : σ → List ι → Prop
  | state, [] => holds state
  | state, input :: inputs =>
    holds state ∧ ∃ next, step state input = some next ∧ Throughout step holds next inputs

/-- Every step that the run takes is allowed in the state before it. -/
def EachStep (step : σ → ι → Option σ) (allowed : σ → ι → Prop) : σ → List ι → Prop
  | _, [] => True
  | state, input :: inputs =>
    allowed state input ∧ ∀ next, step state input = some next → EachStep step allowed next inputs

/-- **Exact conditions.** If the allowed steps are those that keep the invariant, and every other
step loses the property at once, the property holds throughout exactly the runs of allowed
steps. -/
theorem throughout_iff {step : σ → ι → Option σ} {holds invariant : σ → Prop}
    {allowed : σ → ι → Prop} (implied : ∀ state, invariant state → holds state)
    (kept : ∀ state input, invariant state → allowed state input →
      ∃ next, step state input = some next ∧ invariant next)
    (lost : ∀ state input next, invariant state → ¬ allowed state input →
      step state input = some next → ¬ holds next)
    {state : σ} (initial : invariant state) (inputs : List ι) :
    Throughout step holds state inputs ↔ EachStep step allowed state inputs := by
  induction inputs generalizing state with
  | nil => exact ⟨fun _ => trivial, fun _ => implied state initial⟩
  | cons input inputs ih =>
    constructor
    · rintro ⟨-, next, stepped, rest⟩
      have now : holds next := by
        cases inputs with
        | nil => exact rest
        | cons => exact rest.1
      -- A forbidden step would lose the property, which holds after this one.
      have permitted : allowed state input := by
        by_contra forbidden
        exact lost state input next initial forbidden stepped now
      obtain ⟨next', stepped', keeps⟩ := kept state input initial permitted
      refine ⟨permitted, fun other reached => ?_⟩
      obtain rfl : next' = other := Option.some.inj (stepped'.symm.trans reached)
      obtain rfl : next' = next := Option.some.inj (stepped'.symm.trans stepped)
      exact (ih keeps).mp rest
    · rintro ⟨permitted, rest⟩
      obtain ⟨next, stepped, keeps⟩ := kept state input initial permitted
      exact ⟨implied state initial, next, stepped, (ih keeps).mpr (rest next stepped)⟩

/-- `SpecRun spec a inputs answers b`: the abstract machine can give these answers on its way
from `a` to `b`. -/
inductive SpecRun (spec : α → ι → ο → α → Prop) : α → List ι → List ο → α → Prop
  | nil (a) : SpecRun spec a [] [] a
  | cons {a b c input inputs answer answers} : spec a input answer b →
      SpecRun spec b inputs answers c → SpecRun spec a (input :: inputs) (answer :: answers) c

/-- Runs can be put one behind the other. -/
theorem SpecRun.append {spec : α → ι → ο → α → Prop} {a b c : α} {inputs inputs' : List ι}
    {answers answers' : List ο} (first : SpecRun spec a inputs answers b)
    (second : SpecRun spec b inputs' answers' c) :
    SpecRun spec a (inputs ++ inputs') (answers ++ answers') c := by
  induction first with
  | nil => exact second
  | cons answered _ ih => exact .cons answered (ih second)

/-- Two machines that may leave answers open: a relation that every step of the one keeps up with
a step of the other is kept up by every run. -/
theorem SpecRun.simulated {concrete : σ → ι → ο → σ → Prop} {spec : α → ι → ο → α → Prop}
    (related : σ → α → Prop)
    (simulates : ∀ state a input answer next, related state a → concrete state input answer next →
      ∃ b, spec a input answer b ∧ related next b)
    {state last : σ} {a : α} {inputs : List ι} {answers : List ο} (initial : related state a)
    (run : SpecRun concrete state inputs answers last) :
    ∃ b, SpecRun spec a inputs answers b ∧ related last b := by
  induction run generalizing a with
  | nil => exact ⟨a, .nil a, initial⟩
  | cons stepped _ ih =>
    obtain ⟨b, answered, next⟩ := simulates _ a _ _ _ initial stepped
    obtain ⟨c, rest, last⟩ := ih next
    exact ⟨c, .cons answered rest, last⟩

/-- **The last write decides.** If what holds after a step was written by it, or held before and
was spared, then what holds after a run was written by a step and spared by all that follow. -/
theorem SpecRun.holds_iff {spec : α → ι → ο → α → Prop} {holds : α → Prop}
    {writes spares : ι → ο → Prop}
    (each : ∀ a input answer b, spec a input answer b →
      (holds b ↔ writes input answer ∨ holds a ∧ spares input answer))
    {a b : α} {inputs : List ι} {answers : List ο} (run : SpecRun spec a inputs answers b) :
    holds b ↔
      (∃ before write after, inputs.zip answers = before ++ write :: after ∧
        writes write.1 write.2 ∧ ∀ other ∈ after, spares other.1 other.2) ∨
      holds a ∧ ∀ other ∈ inputs.zip answers, spares other.1 other.2 := by
  induction run with
  | nil => simp
  | @cons a b c input inputs answer answers stepped _ ih =>
    rw [ih, each _ _ _ _ stepped, List.zip_cons_cons, List.forall_mem_cons]
    constructor
    · rintro (⟨before, write, after, split, wrote, spared⟩ | ⟨wrote | ⟨held, first⟩, rest⟩)
      · exact .inl ⟨(input, answer) :: before, write, after, by rw [split, List.cons_append], wrote,
          spared⟩
      · exact .inl ⟨[], (input, answer), _, rfl, wrote, rest⟩
      · exact .inr ⟨held, first, rest⟩
    · rintro (⟨before, write, after, split, wrote, spared⟩ | ⟨held, first, rest⟩)
      · cases before with
        | nil =>
          -- The first step is the one that wrote.
          obtain ⟨rfl, rfl⟩ := List.cons.inj split
          exact .inr ⟨.inl wrote, spared⟩
        | cons _ before =>
          exact .inl ⟨before, write, after, (List.cons.inj split).2, wrote, spared⟩
      · exact .inr ⟨.inr ⟨held, first⟩, rest⟩

/-- **Forward simulation.** A relation that every step keeps up with an abstract step is kept
up by every run. -/
theorem runInputs_simulates {step : σ → ι → ο × σ} {spec : α → ι → ο → α → Prop}
    (related : σ → α → Prop)
    (simulates : ∀ state a input, related state a →
      ∃ b, spec a input (step state input).1 b ∧ related (step state input).2 b)
    {state : σ} {a : α} (initial : related state a) (inputs : List ι) :
    ∃ b, SpecRun spec a inputs (runInputs step state inputs).1 b ∧
      related (runInputs step state inputs).2 b := by
  induction inputs generalizing state a with
  | nil => exact ⟨a, .nil a, initial⟩
  | cons input inputs ih =>
    obtain ⟨b, answered, next⟩ := simulates state a input initial
    obtain ⟨c, rest, last⟩ := ih next
    exact ⟨c, .cons answered rest, last⟩

/-- **Equivalence.** Related machines that give the same answers in every step give the same
answers in every run. -/
theorem runInputs_related {τ : Type*} {step : σ → ι → ο × σ} {step' : τ → ι → ο × τ}
    (related : σ → τ → Prop)
    (same : ∀ state state' input, related state state' →
      (step state input).1 = (step' state' input).1 ∧
        related (step state input).2 (step' state' input).2)
    {state : σ} {state' : τ} (initial : related state state') (inputs : List ι) :
    (runInputs step state inputs).1 = (runInputs step' state' inputs).1 ∧
      related (runInputs step state inputs).2 (runInputs step' state' inputs).2 := by
  induction inputs generalizing state state' with
  | nil => exact ⟨rfl, initial⟩
  | cons input inputs ih =>
    obtain ⟨answer, next⟩ := same state state' input initial
    obtain ⟨answers, last⟩ := ih next
    exact ⟨congrArg₂ List.cons answer answers, last⟩

/-! ### Partial steps with answers -/

/-- The answers to a list of inputs and the state after them, when every step is defined. -/
def runAnswers (step : σ → ι → Option (ο × σ)) : σ → List ι → Option (List ο × σ)
  | state, [] => some ([], state)
  | state, input :: inputs => do
    let (answer, next) ← step state input
    let (answers, last) ← runAnswers step next inputs
    return (answer :: answers, last)

theorem runAnswers_cons {step : σ → ι → Option (ο × σ)} {state next last : σ} {input : ι}
    {inputs : List ι} {answer : ο} {answers : List ο}
    (stepped : step state input = some (answer, next))
    (rest : runAnswers step next inputs = some (answers, last)) :
    runAnswers step state (input :: inputs) = some (answer :: answers, last) := by
  simp only [runAnswers, stepped, rest, bind, Option.bind_some, pure]

theorem runAnswers_cons_iff {step : σ → ι → Option (ο × σ)} {state last : σ} {input : ι}
    {inputs : List ι} {answers : List ο} :
    runAnswers step state (input :: inputs) = some (answers, last) ↔
      ∃ answer next rest, step state input = some (answer, next) ∧
        runAnswers step next inputs = some (rest, last) ∧ answers = answer :: rest := by
  constructor
  · intro ran
    rw [runAnswers, Option.bind_eq_bind, Option.bind_eq_some_iff] at ran
    obtain ⟨⟨answer, next⟩, stepped, ran⟩ := ran
    rw [Option.bind_eq_bind, Option.bind_eq_some_iff] at ran
    obtain ⟨⟨rest, final⟩, later, same⟩ := ran
    cases same
    exact ⟨answer, next, rest, stepped, later, rfl⟩
  · rintro ⟨answer, next, rest, stepped, later, rfl⟩
    exact runAnswers_cons stepped later

theorem runAnswers_concat {step : σ → ι → Option (ο × σ)} {state last : σ} {inputs : List ι}
    {input : ι} {answers : List ο} :
    runAnswers step state (inputs ++ [input]) = some (answers, last) ↔
      ∃ earlier between answer, runAnswers step state inputs = some (earlier, between) ∧
        step between input = some (answer, last) ∧ answers = earlier ++ [answer] := by
  induction inputs generalizing state answers with
  | nil =>
    rw [List.nil_append, runAnswers_cons_iff]
    constructor
    · rintro ⟨answer, next, rest, stepped, ended, rfl⟩
      cases ended
      exact ⟨[], state, answer, rfl, stepped, rfl⟩
    · rintro ⟨earlier, between, answer, started, stepped, rfl⟩
      cases started
      exact ⟨answer, last, [], stepped, rfl, rfl⟩
  | cons first inputs ih =>
    rw [List.cons_append, runAnswers_cons_iff]
    constructor
    · rintro ⟨answer, next, rest, stepped, later, rfl⟩
      obtain ⟨earlier, between, final, before, ended, rfl⟩ := ih.mp later
      exact ⟨answer :: earlier, between, final, runAnswers_cons stepped before, ended, rfl⟩
    · rintro ⟨earlier, between, final, before, ended, rfl⟩
      obtain ⟨answer, next, rest, stepped, later, rfl⟩ := runAnswers_cons_iff.mp before
      exact ⟨answer, next, rest ++ [final], stepped,
        ih.mpr ⟨rest, between, final, later, ended, rfl⟩, rfl⟩

theorem runAnswers_append {step : σ → ι → Option (ο × σ)} {state last : σ}
    {inputs inputs' : List ι} {answers : List ο} :
    runAnswers step state (inputs ++ inputs') = some (answers, last) ↔
      ∃ earlier between later, runAnswers step state inputs = some (earlier, between) ∧
        runAnswers step between inputs' = some (later, last) ∧ answers = earlier ++ later := by
  induction inputs generalizing state answers with
  | nil =>
    constructor
    · intro ran
      exact ⟨[], state, answers, rfl, ran, rfl⟩
    · rintro ⟨earlier, between, later, started, ran, rfl⟩
      cases started
      exact ran
  | cons first inputs ih =>
    rw [List.cons_append, runAnswers_cons_iff]
    constructor
    · rintro ⟨answer, next, rest, stepped, ran, rfl⟩
      obtain ⟨earlier, between, later, before, after, rfl⟩ := ih.mp ran
      exact ⟨answer :: earlier, between, later, runAnswers_cons stepped before, after, rfl⟩
    · rintro ⟨earlier, between, later, before, after, rfl⟩
      obtain ⟨answer, next, rest, stepped, ran, rfl⟩ := runAnswers_cons_iff.mp before
      exact ⟨answer, next, rest ++ later, stepped, ih.mpr ⟨rest, between, later, ran, after, rfl⟩,
        rfl⟩

/-- What every step keeps, of the inputs and answers so far and the state, every run keeps. -/
theorem runAnswers_invariant {step : σ → ι → Option (ο × σ)} {state : σ}
    (holds : List ι → List ο → σ → Prop) (initial : holds [] [] state)
    (keeps : ∀ inputs answers between input answer next,
      runAnswers step state inputs = some (answers, between) → holds inputs answers between →
      step between input = some (answer, next) →
      holds (inputs ++ [input]) (answers ++ [answer]) next)
    {inputs : List ι} {answers : List ο} {last : σ}
    (ran : runAnswers step state inputs = some (answers, last)) : holds inputs answers last := by
  induction inputs using List.reverseRecOn generalizing answers last with
  | nil =>
    cases ran
    exact initial
  | append_singleton inputs input ih =>
    obtain ⟨earlier, between, answer, before, stepped, rfl⟩ := runAnswers_concat.mp ran
    exact keeps inputs earlier between input answer last before (ih before) stepped

/-- **Simulation by a total machine.** The relation may speak of the inputs still to come. -/
theorem runAnswers_simulates {step : σ → ι → Option (ο × σ)} {τ : Type*} {spec : α → ι → τ × α}
    {told : ο → τ} (related : σ → α → List ι → Prop)
    (simulates : ∀ state a input inputs, related state a (input :: inputs) →
      ∃ answer next, step state input = some (answer, next) ∧ told answer = (spec a input).1 ∧
        related next (spec a input).2 inputs)
    {state : σ} {a : α} {inputs : List ι} (initial : related state a inputs) :
    ∃ answers last, runAnswers step state inputs = some (answers, last) ∧
      answers.map told = (runInputs spec a inputs).1 ∧
      related last (runInputs spec a inputs).2 [] := by
  induction inputs generalizing state a with
  | nil => exact ⟨[], state, rfl, rfl, initial⟩
  | cons input inputs ih =>
    obtain ⟨answer, next, stepped, same, kept⟩ := simulates state a input inputs initial
    obtain ⟨answers, last, rest, sames, final⟩ := ih kept
    refine ⟨answer :: answers, last, runAnswers_cons stepped rest, ?_, final⟩
    rw [List.map_cons, same, sames, runInputs_cons]

end Foundation
