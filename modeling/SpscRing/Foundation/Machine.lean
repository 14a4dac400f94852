import Mathlib.Data.List.Basic

/-! Labelled transition machines with a partial step function. Runs are
restricted by a predicate on single steps, so that one machine serves both the
unrestricted interleavings and those that keep a stated discipline. -/

namespace SpscRing.Foundation

universe u v

/-- A machine takes a step when its action is enabled in the current state. -/
structure Machine (State : Type u) (Action : Type v) where
  step : State → Action → Option State

namespace Machine

variable {State : Type u} {Action : Type v}

/-- A finite run whose every step is admitted by `allowed`. -/
inductive Run (machine : Machine State Action) (allowed : State → Action → State → Prop) :
    State → List Action → State → Prop where
  | done (state : State) : Run machine allowed state [] state
  | next {before between after : State} {action : Action} {actions : List Action}
      (taken : machine.step before action = some between)
      (admitted : allowed before action between)
      (rest : Run machine allowed between actions after) :
      Run machine allowed before (action :: actions) after

/-- Every step is admitted. -/
def Always (_ : State) (_ : Action) (_ : State) : Prop := True

instance (before : State) (action : Action) (after : State) :
    Decidable (Always before action after) :=
  .isTrue trivial

/-- Two restrictions at once. -/
def Both (first second : State → Action → State → Prop) (before : State) (action : Action)
    (after : State) : Prop :=
  first before action after ∧ second before action after

instance {first second : State → Action → State → Prop}
    [∀ before action after, Decidable (first before action after)]
    [∀ before action after, Decidable (second before action after)] (before : State)
    (action : Action) (after : State) : Decidable (Both first second before action after) :=
  inferInstanceAs (Decidable (_ ∧ _))

/-- The states that admitted runs reach from `start`. -/
def Reachable (machine : Machine State Action) (allowed : State → Action → State → Prop)
    (start state : State) : Prop :=
  ∃ actions, machine.Run allowed start actions state

/-- Execute a fixed list of actions, giving up at the first step that is not
enabled or not admitted. -/
def replay (machine : Machine State Action) (allowed : State → Action → State → Prop)
    [∀ before action after, Decidable (allowed before action after)] :
    State → List Action → Option State
  | state, [] => some state
  | state, action :: actions =>
    match machine.step state action with
    | none => none
    | some next => if allowed state action next then machine.replay allowed next actions else none

variable {machine : Machine State Action} {allowed weaker : State → Action → State → Prop}
variable {start before between after : State} {action : Action} {actions more : List Action}

theorem Run.append (first : machine.Run allowed before actions between)
    (second : machine.Run allowed between more after) :
    machine.Run allowed before (actions ++ more) after := by
  induction first with
  | done _ => exact second
  | next taken admitted _ ih => exact .next taken admitted (ih second)

theorem Run.mono (run : machine.Run allowed before actions after)
    (weaken : ∀ action ∈ actions, ∀ before after, allowed before action after →
      weaker before action after) : machine.Run weaker before actions after := by
  induction run with
  | done _ => exact .done _
  | next taken admitted _ ih =>
    exact .next taken (weaken _ (by simp) _ _ admitted)
      (ih fun action later => weaken action (by simp [later]))

theorem Reachable.refl (state : State) : machine.Reachable allowed state state :=
  ⟨[], .done state⟩

theorem Reachable.run (reached : machine.Reachable allowed start before)
    (run : machine.Run allowed before actions after) : machine.Reachable allowed start after := by
  obtain ⟨earlier, first⟩ := reached
  exact ⟨earlier ++ actions, first.append run⟩

theorem Reachable.mono (reached : machine.Reachable allowed before after)
    (weaken : ∀ action before after, allowed before action after → weaker before action after) :
    machine.Reachable weaker before after := by
  obtain ⟨actions, run⟩ := reached
  exact ⟨actions, run.mono fun action _ => weaken action⟩

/-- Repeating one action until it is no longer enabled ends in one state only. -/
theorem Run.unique_of_stuck {first second : Nat} {other : State}
    (run : machine.Run allowed before (List.replicate first action) after)
    (again : machine.Run allowed before (List.replicate second action) other)
    (stuck : machine.step after action = none) (otherStuck : machine.step other action = none) :
    after = other := by
  induction first generalizing before second with
  | zero =>
    cases run
    cases second with
    | zero =>
      cases again
      rfl
    | succ count =>
      cases again with
      | next taken _ _ => exact absurd taken (by simp [stuck])
  | succ count ih =>
    cases run with
    | next taken _ rest =>
      cases second with
      | zero =>
        cases again
        exact absurd taken (by simp [otherStuck])
      | succ _ =>
        cases again with
        | next takenAgain _ restAgain =>
          rw [taken] at takenAgain
          cases takenAgain
          exact ih rest restAgain

/-- A stream of actions whose every step uses up some of a measure comes to a
state in which its next action is not enabled. -/
theorem exists_stuck (machine : Machine State Action) (allowed : State → Action → State → Prop)
    (measure : State → Nat) (invariant : State → Prop)
    (kept : ∀ before action after, invariant before → allowed before action after →
      machine.step before action = some after → invariant after)
    (uses : ∀ before action after, invariant before → allowed before action after →
      machine.step before action = some after → measure after < measure before)
    (stream : Nat → Action) (admitted : ∀ index before after, allowed before (stream index) after)
    (initially : invariant start) :
    ∃ count after, machine.Run allowed start ((List.range count).map stream) after ∧
      machine.step after (stream count) = none := by
  induction budget : measure start using Nat.strongRecOn generalizing start stream with
  | ind left ih =>
    cases taken : machine.step start (stream 0) with
    | none => exact ⟨0, start, .done start, taken⟩
    | some next =>
      have less := uses start (stream 0) next initially (admitted 0 _ _) taken
      obtain ⟨count, after, rest, stuck⟩ := ih (measure next) (budget ▸ less)
        (fun index => stream (index + 1)) (fun index => admitted (index + 1))
        (kept start (stream 0) next initially (admitted 0 _ _) taken) rfl
      refine ⟨count + 1, after, ?_, stuck⟩
      rw [List.range_succ_eq_map, List.map_cons, List.map_map]
      exact .next taken (admitted 0 _ _) rest

/-- What one admitted step preserves, a whole run preserves. -/
theorem Run.preserves (invariant : State → Prop)
    (kept : ∀ before action after, invariant before → allowed before action after →
      machine.step before action = some after → invariant after)
    (run : machine.Run allowed before actions after) (initially : invariant before) :
    invariant after := by
  induction run with
  | done _ => exact initially
  | next taken admitted _ ih => exact ih (kept _ _ _ initially admitted taken)

/-- A preorder that every admitted step obeys, a whole run obeys. -/
theorem Run.framed (frame : State → State → Prop) (invariant : State → Prop)
    (refl : ∀ state, frame state state)
    (trans : ∀ {first second third}, frame first second → frame second third → frame first third)
    (kept : ∀ before action after, invariant before → allowed before action after →
      machine.step before action = some after → invariant after ∧ frame before after)
    (run : machine.Run allowed before actions after) (initially : invariant before) :
    invariant after ∧ frame before after := by
  induction run with
  | done state => exact ⟨initially, refl state⟩
  | next taken admitted _ ih =>
    obtain ⟨still, first⟩ := kept _ _ _ initially admitted taken
    obtain ⟨final, rest⟩ := ih still
    exact ⟨final, trans first rest⟩

/-- Counted actions use up a measure that no other action raises, so a run has at
most as many of them as the measure has to give. -/
theorem Run.countP_le (counted : Action → Bool) (measure : State → Nat) (invariant : State → Prop)
    (kept : ∀ before action after, invariant before → allowed before action after →
      machine.step before action = some after → invariant after)
    (uses : ∀ before action after, invariant before → allowed before action after →
      machine.step before action = some after →
        measure after + (if counted action then 1 else 0) ≤ measure before)
    (run : machine.Run allowed before actions after) (initially : invariant before) :
    actions.countP counted + measure after ≤ measure before := by
  induction run with
  | done _ => simp
  | next taken admitted _ ih =>
    have first := uses _ _ _ initially admitted taken
    have rest := ih (kept _ _ _ initially admitted taken)
    rw [List.countP_cons]
    omega

/-- The invariant rule: an inductive invariant holds in every reachable state. -/
theorem Reachable.invariant (reached : machine.Reachable allowed start after)
    (invariant : State → Prop) (initially : invariant start)
    (kept : ∀ before action after, invariant before → allowed before action after →
      machine.step before action = some after → invariant after) : invariant after := by
  obtain ⟨actions, run⟩ := reached
  exact run.preserves invariant kept initially

theorem replay_run [∀ before action after, Decidable (allowed before action after)]
    (executed : machine.replay allowed before actions = some after) :
    machine.Run allowed before actions after := by
  induction actions generalizing before with
  | nil =>
    cases executed
    exact .done _
  | cons action actions ih =>
    simp only [replay] at executed
    split at executed
    · cases executed
    · rename_i next taken
      split at executed
      · rename_i admitted
        exact .next taken admitted (ih executed)
      · cases executed

/-- A replay that ends in a state satisfying a decidable test witnesses a run
to a state with that property. -/
theorem run_of_replay (machine : Machine State Action) (allowed : State → Action → State → Prop)
    [∀ before action after, Decidable (allowed before action after)] (before : State)
    (actions : List Action) (test : State → Bool)
    (executed : (machine.replay allowed before actions).any test = true) :
    ∃ after, machine.Run allowed before actions after ∧ test after = true := by
  obtain ⟨after, replayed, passed⟩ := (Option.any_eq_true _ _).mp executed
  exact ⟨after, replay_run replayed, passed⟩

end Machine

end SpscRing.Foundation
