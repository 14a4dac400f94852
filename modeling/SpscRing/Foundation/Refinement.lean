import SpscRing.Foundation.Machine

/-! Refinement between machines: every admitted step of the concrete machine is
matched by a finite run of the abstract one over the events it shows. -/

namespace SpscRing.Foundation.Machine

universe u v w x

variable {State : Type u} {Action : Type v} {Abstract : Type w} {Event : Type x}

/-- The events a run shows, step by step. -/
def trace (machine : Machine State Action) (observe : State → Action → List Event) :
    State → List Action → List Event
  | _, [] => []
  | state, action :: actions =>
    match machine.step state action with
    | none => []
    | some next => observe state action ++ machine.trace observe next actions

variable {machine : Machine State Action} {allowed : State → Action → State → Prop}
variable {before after : State} {actions : List Action} {observe : State → Action → List Event}

theorem Run.trace_append (run : machine.Run allowed before actions after) (more : List Action) :
    machine.trace observe before (actions ++ more) =
      machine.trace observe before actions ++ machine.trace observe after more := by
  induction run with
  | done _ => rfl
  | next taken _ _ ih => simp only [List.cons_append, trace, taken, ih, List.append_assoc]

/-- What holds of every event a step can show holds of every event of a run. -/
theorem forall_trace {holds : Event → Prop}
    (shown : ∀ state action, ∀ event ∈ observe state action, holds event) (start : State)
    (actions : List Action) : ∀ event ∈ machine.trace observe start actions, holds event := by
  induction actions generalizing start with
  | nil => simp [trace]
  | cons action actions ih =>
    intro event member
    simp only [trace] at member
    split at member
    · cases member
    · rename_i next taken
      rcases List.mem_append.mp member with first | later
      · exact shown start action event first
      · exact ih next event later

/-- The simulation rule, under an invariant of the concrete machine. -/
theorem Run.refines (abstract : Machine Abstract Event) (abstraction : State → Abstract)
    (observe : State → Action → List Event) (invariant : State → Prop)
    (kept : ∀ before action after, invariant before → allowed before action after →
      machine.step before action = some after → invariant after)
    (simulated : ∀ before action after, invariant before → allowed before action after →
      machine.step before action = some after →
        abstract.Run Always (abstraction before) (observe before action) (abstraction after))
    (run : machine.Run allowed before actions after) (initially : invariant before) :
    abstract.Run Always (abstraction before) (machine.trace observe before actions)
      (abstraction after) := by
  induction run with
  | done _ => exact .done _
  | next taken admitted _ ih =>
    simp only [trace, taken]
    exact (simulated _ _ _ initially admitted taken).append
      (ih (kept _ _ _ initially admitted taken))

/-- The simulation rule with stuttering: every admitted step leaves the abstract state
as it is or is one admitted abstract step. -/
theorem Reachable.simulates {start : State} (abstract : Machine Abstract Event)
    (admits : Abstract → Event → Abstract → Prop) (abstraction : State → Abstract)
    (invariant : State → Prop) (initially : invariant start)
    (kept : ∀ before action after, invariant before → allowed before action after →
      machine.step before action = some after → invariant after)
    (simulated : ∀ before action after, invariant before → allowed before action after →
      machine.step before action = some after → abstraction after = abstraction before ∨
        ∃ event, abstract.step (abstraction before) event = some (abstraction after) ∧
          admits (abstraction before) event (abstraction after))
    (reached : machine.Reachable allowed start after) :
    abstract.Reachable admits (abstraction start) (abstraction after) := by
  obtain ⟨actions, run⟩ := reached
  induction run with
  | done state => exact .refl _
  | next taken admitted _ ih =>
    obtain ⟨events, rest⟩ := ih (kept _ _ _ initially admitted taken)
    rcases simulated _ _ _ initially admitted taken with same | ⟨event, matched, admissible⟩
    · exact ⟨events, same ▸ rest⟩
    · exact ⟨event :: events, .next matched admissible rest⟩

/-- The converse rule: when every abstract step is matched from every related state, so
is every abstract run. -/
theorem Reachable.realised {start : State} {abstract : Machine Abstract Event}
    {admits : Abstract → Event → Abstract → Prop} {source target : Abstract}
    (related : State → Abstract → Prop)
    (matched : ∀ state before event after, related state before → admits before event after →
      abstract.step before event = some after →
        ∃ next, machine.Reachable allowed state next ∧ related next after)
    (reached : abstract.Reachable admits source target) (initially : related start source) :
    ∃ next, machine.Reachable allowed start next ∧ related next target := by
  obtain ⟨events, run⟩ := reached
  induction run generalizing start with
  | done state => exact ⟨start, .refl start, initially⟩
  | next taken admitted _ ih =>
    obtain ⟨between, first, kept⟩ := matched _ _ _ _ initially admitted taken
    obtain ⟨final, ⟨actions, rest⟩, ends⟩ := ih kept
    exact ⟨final, first.run rest, ends⟩

end SpscRing.Foundation.Machine
