import Mathlib.Data.List.Basic

/-! Runs of a machine whose step function is partial: a step that has no
successor is one that never returns. Every nondeterministic outcome (a fresh
address, a delivery, a schedule) is part of the event, so the successor is
unique and a property of all runs is a property of all event lists. -/
namespace ShapeQuake.Library.Runs

section
variable {State Event : Type _} (step : State → Event → Option State)

/-- The state after the listed events, when each of them returns. -/
def exec : State → List Event → Option State
  | state, [] => some state
  | state, event :: rest => (step state event).bind fun next => exec next rest

/-- The property holds in the first state and in every state reached. -/
def Throughout (property : State → Prop) : State → List Event → Prop
  | state, [] => property state
  | state, event :: rest =>
    property state ∧ ∀ next, step state event = some next → Throughout property next rest

/-- The condition holds of every step that is taken, in the state before it. -/
def EachStep (condition : State → Event → Prop) : State → List Event → Prop
  | _, [] => True
  | state, event :: rest =>
    ∀ next, step state event = some next → condition state event ∧ EachStep condition next rest

instance decidableEachStep (condition : State → Event → Prop)
    [∀ state event, Decidable (condition state event)] :
    ∀ state events, Decidable (EachStep step condition state events)
  | _, [] => isTrue trivial
  | state, event :: rest =>
    match taken : step state event with
    | none => isTrue fun _ other => nomatch taken.symm.trans other
    | some next =>
      have := decidableEachStep condition next rest
      decidable_of_iff (condition state event ∧ EachStep step condition next rest)
        ⟨fun held _ other => Option.some.inj (taken.symm.trans other) ▸ held,
          fun held => held next taken⟩

variable {step}

@[simp] theorem exec_nil : exec step state [] = some state := rfl

theorem exec_cons : exec step state (event :: rest) = some final ↔
    ∃ next, step state event = some next ∧ exec step next rest = some final := by
  simp [exec, Option.bind_eq_some_iff]

theorem exec_append : exec step state (first ++ second) = some final ↔
    ∃ middle, exec step state first = some middle ∧ exec step middle second = some final := by
  induction first generalizing state with
  | nil => simp
  | cons event rest ih =>
    simp only [List.cons_append, exec_cons, ih]
    constructor
    · rintro ⟨next, taken, middle, before, after⟩
      exact ⟨middle, ⟨next, taken, before⟩, after⟩
    · rintro ⟨middle, ⟨next, taken, before⟩, after⟩
      exact ⟨next, taken, middle, before, after⟩

theorem throughout_start (held : Throughout step property state events) : property state := by
  cases events with
  | nil => exact held
  | cons event rest => exact held.1

/-- The last state of a run is one of the states reached. -/
theorem throughout_final (held : Throughout step property state events)
    (ran : exec step state events = some final) : property final := by
  induction events generalizing state with
  | nil =>
    cases ran
    exact held
  | cons event rest ih =>
    obtain ⟨next, taken, after⟩ := exec_cons.mp ran
    exact ih (held.2 next taken) after

/-- A machine that carries more than another and steps as that one does runs as it does. -/
theorem exec_project {Fine : Type _} {fineStep : Fine → Event → Option Fine} {project : Fine → State}
    (follows : ∀ fine event, (fineStep fine event).map project = step (project fine) event)
    (fine : Fine) (events : List Event) :
    (exec fineStep fine events).map project = exec step (project fine) events := by
  induction events generalizing fine with
  | nil => rfl
  | cons event rest ih =>
    rw [exec, exec, ← follows fine event, Option.map_bind, Option.bind_map]
    exact Option.bind_congr fun next _ => ih next

/-- What one step preserves, a whole run preserves. -/
theorem exec_invariant {invariant : State → Prop}
    (preserved : ∀ state event next, invariant state → step state event = some next →
      invariant next)
    (start : invariant state) (ran : exec step state events = some final) : invariant final := by
  induction events generalizing state with
  | nil =>
    cases ran
    exact start
  | cons event rest ih =>
    obtain ⟨next, taken, after⟩ := exec_cons.mp ran
    exact ih (preserved _ _ _ start taken) after

/-- An invariant that each conditioned step preserves holds in every state of
a run whose steps all meet the condition. -/
theorem throughout_of_each_step {invariant : State → Prop} {condition : State → Event → Prop}
    (preserved : ∀ state event next, invariant state → condition state event →
      step state event = some next → invariant next)
    (start : invariant state) (met : EachStep step condition state events) :
    Throughout step invariant state events := by
  induction events generalizing state with
  | nil => exact start
  | cons event rest ih =>
    refine ⟨start, fun next taken => ?_⟩
    obtain ⟨here, later⟩ := met next taken
    exact ih (preserved _ _ _ start here taken) later

/-- What an invariant and the condition say of a step holds of every step of a
run whose steps all meet the condition. -/
theorem each_step_of_each_step {invariant : State → Prop} {condition promise : State → Event → Prop}
    (preserved : ∀ state event next, invariant state → condition state event →
      step state event = some next → invariant next ∧ promise state event)
    (start : invariant state) (met : EachStep step condition state events) :
    EachStep step promise state events := by
  induction events generalizing state with
  | nil => trivial
  | cons event rest ih =>
    intro next taken
    obtain ⟨here, later⟩ := met next taken
    obtain ⟨kept, promised⟩ := preserved _ _ _ start here taken
    exact ⟨promised, ih kept later⟩

/-- What allowed steps preserve, a run of allowed steps preserves. -/
theorem exec_invariant_of_allowed {invariant : State → Prop} {allowed : Event → Prop}
    (preserved : ∀ state event next, invariant state → allowed event → step state event = some next →
      invariant next)
    (start : invariant state) (ran : exec step state events = some final)
    (all : ∀ event ∈ events, allowed event) : invariant final := by
  induction events generalizing state with
  | nil =>
    cases ran
    exact start
  | cons event rest ih =>
    obtain ⟨here, later⟩ := List.forall_mem_cons.mp all
    obtain ⟨next, taken, after⟩ := exec_cons.mp ran
    exact ih (preserved _ _ _ start here taken) after later

/-- A run of steps that each lower a rank is no longer than the rank is high. -/
theorem exec_length_le {invariant : State → Prop} {allowed : Event → Prop} {rank : State → Nat}
    (preserved : ∀ state event next, invariant state → allowed event → step state event = some next →
      invariant next)
    (lower : ∀ state event next, invariant state → allowed event → step state event = some next →
      rank next < rank state)
    (start : invariant state) (ran : exec step state events = some final)
    (all : ∀ event ∈ events, allowed event) : events.length ≤ rank state := by
  induction events generalizing state with
  | nil => exact Nat.zero_le _
  | cons event rest ih =>
    obtain ⟨here, later⟩ := List.forall_mem_cons.mp all
    obtain ⟨next, taken, after⟩ := exec_cons.mp ran
    have shorter := ih (preserved _ _ _ start here taken) after later
    have less := lower _ _ _ start here taken
    rw [List.length_cons]
    omega

/-- Where each step lowers a rank and there is always one before the goal, a run to the
goal exists. -/
theorem exec_reaches {invariant goal : State → Prop} {allowed : Event → Prop} {rank : State → Nat}
    (preserved : ∀ state event next, invariant state → allowed event → step state event = some next →
      invariant next)
    (lower : ∀ state event next, invariant state → allowed event → step state event = some next →
      rank next < rank state)
    (goesOn : ∀ state, invariant state →
      goal state ∨ ∃ event next, allowed event ∧ step state event = some next)
    (start : invariant state) :
    ∃ events final, exec step state events = some final ∧ invariant final ∧ goal final := by
  induction bound : rank state using Nat.strongRecOn generalizing state with
  | ind height ih =>
    rcases goesOn state start with done | ⟨event, next, allows, taken⟩
    · exact ⟨[], state, rfl, start, done⟩
    · have less := lower state event next start allows taken
      rw [bound] at less
      obtain ⟨events, final, ran, kept, done⟩ := ih _ less (preserved state event next start allows taken) rfl
      exact ⟨event :: events, final, exec_cons.mpr ⟨next, taken, ran⟩, kept, done⟩

/-- What holds of each step of a run holds of the one after its first events. -/
theorem each_step_reached {condition : State → Event → Prop}
    (met : EachStep step condition state (first ++ event :: rest))
    (ran : exec step state first = some middle) (taken : step middle event = some next) :
    condition middle event := by
  induction first generalizing state with
  | nil =>
    obtain rfl := Option.some.inj ran
    exact (met next taken).1
  | cons earlier others ih =>
    obtain ⟨after, here, later⟩ := exec_cons.mp ran
    exact ih (met after here).2 later

private theorem each_step_trivial (events : List Event) :
    EachStep step (fun _ _ => True) state events := by
  induction events generalizing state with
  | nil => trivial
  | cons event rest ih => exact fun next _ => ⟨trivial, ih⟩

/-- What every step preserves holds in every state of a run. -/
theorem throughout_invariant {invariant : State → Prop}
    (preserved : ∀ state event next, invariant state → step state event = some next →
      invariant next)
    (start : invariant state) (events : List Event) : Throughout step invariant state events :=
  throughout_of_each_step (fun _ _ _ held _ taken => preserved _ _ _ held taken) start
    (each_step_trivial events)

theorem throughout_mono {first second : State → Prop}
    (weaker : ∀ state, first state → second state)
    (held : Throughout step first state events) : Throughout step second state events := by
  induction events generalizing state with
  | nil => exact weaker _ held
  | cons event rest ih =>
    exact ⟨weaker _ held.1, fun next taken => ih (held.2 next taken)⟩

/-- When a step keeps the property and does what it may exactly if it meets the
condition, a run does so throughout exactly if all its steps meet the condition.
The background invariant need only survive the steps that keep the property and do what
they may. -/
theorem throughout_and_each_step_iff {background property : State → Prop}
    {allowed condition : State → Event → Prop}
    (kept : ∀ state event next, background state → property state → property next →
      allowed state event → step state event = some next → background next)
    (exact_ : ∀ state event next, background state → property state →
      step state event = some next →
        (property next ∧ allowed state event ↔ condition state event))
    (ground : background state) (start : property state) :
    Throughout step property state events ∧ EachStep step allowed state events ↔
      EachStep step condition state events := by
  induction events generalizing state with
  | nil => simp [Throughout, EachStep, start]
  | cons event rest ih =>
    constructor
    · rintro ⟨held, did⟩ next taken
      have after := held.2 next taken
      have sound := throughout_start after
      obtain ⟨allowedHere, later⟩ := did next taken
      exact ⟨(exact_ _ _ _ ground start taken).mp ⟨sound, allowedHere⟩,
        (ih (kept _ _ _ ground start sound allowedHere taken) sound).mp ⟨after, later⟩⟩
    · intro met
      have step_ : ∀ next, step state event = some next →
          allowed state event ∧ Throughout step property next rest ∧
            EachStep step allowed next rest := by
        intro next taken
        obtain ⟨here, later⟩ := met next taken
        obtain ⟨sound, allowedHere⟩ := (exact_ _ _ _ ground start taken).mpr here
        exact ⟨allowedHere, (ih (kept _ _ _ ground start sound allowedHere taken) sound).mpr later⟩
      exact ⟨⟨start, fun next taken => (step_ next taken).2.1⟩,
        fun next taken => ⟨(step_ next taken).1, (step_ next taken).2.2⟩⟩

/-- The case without a constraint on the steps. -/
theorem throughout_iff_each_step {background property : State → Prop}
    {condition : State → Event → Prop}
    (kept : ∀ state event next, background state → property state → property next →
      step state event = some next → background next)
    (exact_ : ∀ state event next, background state → property state →
      step state event = some next → (property next ↔ condition state event))
    (ground : background state) (start : property state) :
    Throughout step property state events ↔ EachStep step condition state events := by
  have general : Throughout step property state events ∧
      EachStep step (fun _ _ => True) state events ↔ EachStep step condition state events :=
    throughout_and_each_step_iff (fun _ _ _ ground start sound _ taken => kept _ _ _ ground start sound taken)
      (fun _ _ _ ground start taken => (and_iff_left trivial).trans (exact_ _ _ _ ground start taken))
      ground start
  rwa [and_iff_left (each_step_trivial events)] at general

/-- A property that is never regained once it is lost holds throughout a run
exactly if it holds at its end. -/
theorem throughout_iff_final {background property : State → Prop}
    (kept : ∀ state event next, background state → step state event = some next →
      background next)
    (lost : ∀ state event next, background state → step state event = some next →
      property next → property state)
    (ground : background state) (ran : exec step state events = some final) :
    Throughout step property state events ↔ property final := by
  refine ⟨fun held => throughout_final held ran, fun last => ?_⟩
  have all : property state ∧ Throughout step property state events := by
    induction events generalizing state with
    | nil =>
      cases ran
      exact ⟨last, last⟩
    | cons event rest ih =>
      obtain ⟨next, taken, after⟩ := exec_cons.mp ran
      obtain ⟨here, later⟩ := ih (kept _ _ _ ground taken) after
      have sound := lost _ _ _ ground taken here
      refine ⟨sound, sound, fun other same => ?_⟩
      cases taken.symm.trans same
      exact later
  exact all.2

/-- A way through the machine on which each step either passes on all that it is given or
drops some of what it holds: it never makes up or reorders anything, and at the end of a run
nothing is missing exactly if every step passed all on. -/
theorem nothing_missing_iff {Item : Type _} {held given : State → List Item}
    {background : State → Prop} {whole : State → Event → Prop}
    (kept : ∀ state event next, background state → step state event = some next → background next)
    (passes : ∀ state event next, background state → step state event = some next →
      (whole state event ∧ ∃ more, held next = held state ++ more ∧ given next = given state ++ more) ∨
      (¬ whole state event ∧ (held next).Sublist (held state) ∧ held next ≠ held state ∧
        given next = given state))
    (ground : background state) (nothing : held state = given state)
    (ran : exec step state events = some final) :
    (held final).Sublist (given final) ∧
      (held final = given final ↔ EachStep step whole state events) := by
  have ordered : ∀ state event next, background state ∧ (held state).Sublist (given state) →
      step state event = some next → background next ∧ (held next).Sublist (given next) := by
    rintro state event next ⟨sound, sub⟩ taken
    refine ⟨kept state event next sound taken, ?_⟩
    rcases passes state event next sound taken with ⟨_, more, carried, fed⟩ | ⟨_, fewer, _, fed⟩
    · rw [carried, fed]
      exact sub.append (List.Sublist.refl more)
    · rw [fed]
      exact fewer.trans sub
  have missing : ∀ state event next, background state ∧ (held state).Sublist (given state) →
      step state event = some next → held next = given next → whole state event ∧ held state = given state := by
    rintro state event next ⟨sound, sub⟩ taken same
    rcases passes state event next sound taken with ⟨all, more, carried, fed⟩ | ⟨_, fewer, differ, fed⟩
    · rw [carried, fed] at same
      exact ⟨all, List.append_cancel_right same⟩
    · refine absurd (fewer.eq_of_length_le ?_) differ
      rw [same, fed]
      exact sub.length_le
  have sub : background state ∧ (held state).Sublist (given state) := ⟨ground, nothing ▸ List.Sublist.refl _⟩
  have last := exec_invariant ordered sub ran
  refine ⟨last.2, ?_⟩
  rw [← throughout_iff_final ordered
    (fun state event next sound taken same => (missing state event next sound taken same).2) sub ran]
  apply throughout_iff_each_step fun state event next sound _ _ taken => ordered state event next sound taken
  · intro state event next sound same taken
    constructor
    · exact fun still => (missing state event next sound taken still).1
    · intro all
      rcases passes state event next sound.1 taken with ⟨_, more, carried, fed⟩ | ⟨some_, _⟩
      · rw [carried, fed, same]
      · exact absurd all some_
  · exact sub
  · exact nothing

end

end ShapeQuake.Library.Runs
