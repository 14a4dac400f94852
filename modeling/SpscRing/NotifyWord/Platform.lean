import SpscRing.NotifyWord.Backend
import SpscRing.NotifyWord.Wakeup

/-! The wait/notify protocol over the platform waits it is built on. In the protocol
`atomic_wait_for` is one step that compares and blocks; here it is the loop of the
backend, which loads the word, asks the kernel to compare and block, and may load and
block again before it returns. -/

namespace SpscRing.NotifyWord

open SpscRing.Foundation SpscRing.AtomicWait

/-- The protocol with the waiter's stay in its platform wait, during which the
protocol's own counter remains at the wait. -/
structure PlatformState (Shared Place : Type) where
  protocol : State Unit Shared
  stay : Option (Int32 × Place) := none

inductive PlatformAction (Clock Shared : Type) where
  | call (call : WaitCall Shared)
  | waiter (expired : Bool) (remainingMs : Int32) (clock : Clock)
  | kernel (outcome : Outcome)
  | publish (value : Shared)
  | bump
  | notify

variable {Clock Place Shared : Type} (backend : Backend Clock Place)

/-- The `timeout_ms` that `wait_on_notify_word` and its timed variant pass on. -/
def passedTimeout (call : WaitCall Shared) (remainingMs : Int32) : Int32 :=
  if call.hasDeadline then remainingMs else -1

/-- A step of the waiter inside the platform wait; the thread has none while the kernel
holds it, and a wait that has returned goes back to the top of the protocol's loop. -/
def stayStep (state : PlatformState Shared Place) (call : WaitCall Shared) (registered : Bool)
    (marked : UInt32) (remainingMs : Int32) (clock : Clock) : Option (PlatformState Shared Place) :=
  match state.stay with
  | none =>
    let timeoutMs := passedTimeout call remainingMs
    some { state with stay := some (timeoutMs, backend.start marked timeoutMs) }
  | some (timeoutMs, place) =>
    if backend.queued place then none
    else
      match backend.step marked timeoutMs place ⟨⟨state.protocol.word, clock⟩, .interrupted⟩ with
      | some next => some { state with stay := some (timeoutMs, next) }
      | none => some ⟨state.protocol.goto () (.check call registered), none⟩

/-- `atomic_notify_all`: the kernel lets a thread go that it holds. -/
def notifyStay : Option (Int32 × Place) → Option (Int32 × Place)
  | some (timeoutMs, place) =>
    some (timeoutMs, if backend.queued place then backend.release place .woken else place)
  | none => none

def platformStep (state : PlatformState Shared Place) :
    PlatformAction Clock Shared → Option (PlatformState Shared Place)
  | .call call => (step state.protocol (.call () call)).map fun protocol => { state with protocol }
  | .waiter expired remainingMs clock =>
    match state.protocol.waiter () with
    | .wait call registered marked =>
      stayStep backend state call registered marked remainingMs clock
    | _ => (waiterStep state.protocol () expired).map fun protocol => { state with protocol }
  | .kernel outcome =>
    match state.stay with
    | some (timeoutMs, place) =>
      if backend.queued place then
        some { state with stay := some (timeoutMs, backend.release place outcome) }
      else none
    | none => none
  | .publish value =>
    (step state.protocol (.publish value)).map fun protocol => { state with protocol }
  | .bump => (step state.protocol .bump).map fun protocol => { state with protocol }
  | .notify => (step state.protocol .notify).map fun protocol =>
      ⟨protocol, notifyStay backend state.stay⟩

variable (Shared) in
def platform : Machine (PlatformState Shared Place) (PlatformAction Clock Shared) :=
  ⟨platformStep backend⟩

/-- Fewer than `2^31` bumps fall between a `fetch_or` and the end of the platform wait
that follows it. -/
def FewBumpsInside (_ : PlatformState Shared Place) (_ : PlatformAction Clock Shared)
    (after : PlatformState Shared Place) : Prop :=
  after.stay.isSome = true → after.protocol.bumps () < 2 ^ 31

instance (before after : PlatformState Shared Place) (action : PlatformAction Clock Shared) :
    Decidable (FewBumpsInside before action after) :=
  inferInstanceAs (Decidable (_ → _))

/-- The waiter is stranded in its platform wait: its predicate has turned false and no
round is under way that could let it go, yet the kernel holds it or every load it can
make finds the value it waits to see changed. -/
def Stranded (state : PlatformState Shared Place) : Prop :=
  ∃ call registered marked timeoutMs place,
    state.protocol.waiter () = .wait call registered marked ∧
    state.stay = some (timeoutMs, place) ∧
    call.pred state.protocol.shared state.protocol.word = false ∧
    state.protocol.bumper = .betweenRounds ∧
    (backend.queued place = true ∨ state.protocol.word = marked)

/-- The protocol's own coverage, and what holds of a thread that the kernel holds. -/
structure Secured (state : PlatformState Shared Place) : Prop where
  covered : Covered state.protocol ()
  inside : state.stay.isSome = true →
    ∃ call registered marked, state.protocol.waiter () = .wait call registered marked
  held : ∀ timeoutMs place, state.stay = some (timeoutMs, place) → backend.queued place = true →
    state.protocol.bumper = .mustNotify ∨
      (state.protocol.bumps () = 0 ∧ hasWaiter state.protocol.word = true)
  few : state.stay.isSome = true → state.protocol.bumps () < 2 ^ 31

variable {backend} {before after : PlatformState Shared Place} {action : PlatformAction Clock Shared}

theorem covered_single {before after : State Unit Shared} {action : Action Unit Shared}
    (covered : Covered before ()) (taken : step before action = some after)
    (few : FewBumps before action after) : Covered after () := by
  refine covered_step (fun _ => covered) few (fun self expired _ => ⟨?_, ?_⟩) taken ()
  · exact fun _ other different => absurd rfl different
  · exact fun other different => absurd rfl different

/-- Outside its platform wait the waiter takes the protocol's steps. -/
theorem secured_outside {expired : Bool} {protocol : State Unit Shared}
    (secured : Secured backend before) (taken : waiterStep before.protocol () expired = some protocol)
    (elsewhere : ∀ call registered marked,
      before.protocol.waiter () ≠ .wait call registered marked) :
    Secured backend { before with protocol } := by
  have empty : before.stay = none := by
    cases stay : before.stay with
    | none => rfl
    | some _ =>
      obtain ⟨call, registered, marked, here⟩ := secured.inside (by simp [stay])
      exact absurd here (elsewhere call registered marked)
  have few : FewBumps before.protocol (.waiter () expired) protocol := by
    cases here : before.protocol.waiter () with
    | wait call registered marked => exact absurd here (elsewhere call registered marked)
    | _ => simp [FewBumps, fewBumps, here]
  have moved : step before.protocol (.waiter () expired) = some protocol := taken
  refine ⟨covered_single secured.covered moved few, ?_, ?_, ?_⟩ <;> simp [empty]

theorem secured_stay {call : WaitCall Shared} {registered : Bool} {marked : UInt32}
    {remainingMs : Int32} {clock : Clock} (secured : Secured backend before)
    (here : before.protocol.waiter () = .wait call registered marked)
    (admitted : after.stay.isSome = true → after.protocol.bumps () < 2 ^ 31)
    (taken : stayStep backend before call registered marked remainingMs clock = some after) :
    Secured backend after := by
  have covered := secured.covered
  simp only [Covered, here] at covered
  unfold stayStep at taken
  split at taken
  · cases taken
    refine ⟨secured.covered, fun _ => ⟨call, registered, marked, here⟩, ?_, admitted⟩
    rintro timeoutMs place entered queued
    cases entered
    simp [backend.started] at queued
  · rename_i timeoutMs place stay
    split at taken
    · cases taken
    · rename_i outside
      split at taken <;> cases taken
      · rename_i next moved
        refine ⟨secured.covered, fun _ => ⟨call, registered, marked, here⟩, ?_, admitted⟩
        rintro _ _ entered queued
        cases entered
        have same := backend.compares _ _ _ _ _ (by simpa using outside) moved queued
        exact .inr (covered.1.unbumped (secured.few (by simp [stay])) same)
      · refine ⟨?_, ?_, ?_, ?_⟩
        · simp [Covered, State.goto]
        all_goals simp

theorem secured_step (secured : Secured backend before)
    (admitted : FewBumpsInside before action after)
    (taken : platformStep backend before action = some after) : Secured backend after := by
  cases action with
  | call call =>
    simp only [platformStep, Option.map_eq_some_iff] at taken
    obtain ⟨protocol, moved, rfl⟩ := taken
    have empty : before.stay = none := by
      cases stay : before.stay with
      | none => rfl
      | some _ =>
        obtain ⟨_, _, _, here⟩ := secured.inside (by simp [stay])
        simp [step, here] at moved
    refine ⟨covered_single secured.covered moved rfl, ?_, ?_, ?_⟩ <;> simp [empty]
  | waiter expired remainingMs clock =>
    simp only [platformStep] at taken
    split at taken
    · rename_i call registered marked here
      exact secured_stay secured here admitted taken
    · rename_i elsewhere
      simp only [Option.map_eq_some_iff] at taken
      obtain ⟨protocol, moved, rfl⟩ := taken
      exact secured_outside secured moved elsewhere
  | kernel outcome =>
    simp only [platformStep] at taken
    split at taken
    · rename_i timeoutMs place stay
      split at taken <;> cases taken
      refine ⟨secured.covered, fun _ => secured.inside (by simp [stay]), ?_, admitted⟩
      rintro _ _ entered queued
      cases entered
      simp [backend.released] at queued
    · cases taken
  | publish value =>
    simp only [platformStep, Option.map_eq_some_iff] at taken
    obtain ⟨protocol, moved, rfl⟩ := taken
    refine ⟨covered_single secured.covered moved rfl, ?_, ?_, admitted⟩
    all_goals
      simp only [step] at moved
      split at moved <;> cases moved
      rename_i resting
    · exact secured.inside
    · intro timeoutMs place stay queued
      rcases secured.held timeoutMs place stay queued with notifying | unbumped
      · simp [resting] at notifying
      · exact .inr unbumped
  | bump =>
    simp only [platformStep, Option.map_eq_some_iff] at taken
    obtain ⟨protocol, moved, rfl⟩ := taken
    refine ⟨covered_single secured.covered moved rfl, ?_, ?_, admitted⟩
    all_goals
      simp only [step, bumpNotifyWord] at moved
      split at moved <;> cases moved
      rename_i publishing
    · exact secured.inside
    · intro timeoutMs place stay queued
      rcases secured.held timeoutMs place stay queued with notifying | ⟨-, flag⟩
      · simp [publishing] at notifying
      · exact .inl (by simp [flag])
  | notify =>
    simp only [platformStep, Option.map_eq_some_iff] at taken
    obtain ⟨protocol, moved, rfl⟩ := taken
    refine ⟨covered_single secured.covered moved rfl, ?_, ?_, admitted⟩
    · intro inside
      have stayed : before.stay.isSome = true := by
        cases stay : before.stay <;> simp_all [notifyStay]
      obtain ⟨call, registered, marked, here⟩ := secured.inside stayed
      simp only [step] at moved
      split at moved <;> cases moved
      exact ⟨call, registered, marked, by simp [here, WaiterPc.woken]⟩
    · intro timeoutMs place stay queued
      cases left : before.stay with
      | none => simp [notifyStay, left] at stay
      | some pair =>
        obtain ⟨before, held⟩ := pair
        simp only [notifyStay, left, Option.some.injEq, Prod.mk.injEq] at stay
        obtain ⟨-, rfl⟩ := stay
        split at queued
        · simp [backend.released] at queued
        · contradiction

/-- A waiter whose predicate has turned false is not held by its platform wait while
nobody is about to wake it. -/
theorem Secured.not_stranded {state : PlatformState Shared Place} (secured : Secured backend state) :
    ¬ Stranded backend state := by
  rintro ⟨call, registered, marked, timeoutMs, place, here, stay, progress, resting, stuck⟩
  have covered := secured.covered
  simp only [Covered, here, Awaits, progress, resting, reduceCtorEq, or_false, Bool.false_eq_true,
    imp_false] at covered
  rcases stuck with queued | same
  · rcases secured.held timeoutMs place stay queued with notifying | ⟨unbumped, -⟩
    · simp [resting] at notifying
    · exact covered.2 unbumped
  · exact covered.2 (covered.1.unbumped (secured.few (by simp [stay])) same).1

/-- A platform wait that is not held, on a word that has changed, runs to its end. -/
theorem stay_ends {protocol : State Unit Shared} {call : WaitCall Shared} {registered : Bool}
    {marked : UInt32} {timeoutMs : Int32} {place : Place} (few : protocol.bumps () < 2 ^ 31)
    (here : protocol.waiter () = .wait call registered marked)
    (outside : backend.queued place = false) (changed : protocol.word ≠ marked)
    (clock : Nat → Clock) :
    ∃ count, (platform Shared backend).Run FewBumpsInside ⟨protocol, some (timeoutMs, place)⟩
      ((List.range count).map fun index => .waiter false 0 (clock index))
      ⟨protocol.goto () (.check call registered), none⟩ := by
  induction left : backend.rank place using Nat.strongRecOn generalizing place clock with
  | ind budget ih =>
    cases moved : backend.step marked timeoutMs place
        ⟨⟨protocol.word, clock 0⟩, .interrupted⟩ with
    | none =>
      have taken : platformStep backend ⟨protocol, some (timeoutMs, place)⟩
          (.waiter false 0 (clock 0)) =
          some ⟨protocol.goto () (.check call registered), none⟩ := by
        simp [platformStep, here, stayStep, outside, moved]
      exact ⟨1, .next taken (by simp [FewBumpsInside]) (.done _)⟩
    | some next =>
      have taken : platformStep backend ⟨protocol, some (timeoutMs, place)⟩
          (.waiter false 0 (clock 0)) = some ⟨protocol, some (timeoutMs, next)⟩ := by
        simp [platformStep, here, stayStep, outside, moved]
      have closer := backend.leaves _ _ _ _ _ outside changed moved
      have still : backend.queued next = false := by
        by_contra queued
        exact changed (backend.compares _ _ _ _ _ outside moved (by simpa using queued))
      obtain ⟨count, rest⟩ := ih (backend.rank next) (left ▸ closer) still
        (fun index => clock (index + 1)) rfl
      refine ⟨count + 1, ?_⟩
      rw [List.range_succ_eq_map, List.map_cons, List.map_map]
      exact .next taken (fun _ => few) rest

/-- On every backend, and however often the kernel lets the waiter go early or its clock
runs out: once the predicate has turned false and the bumper's round is over, a waiter
in its platform wait is not held, and its own steps alone take it back to the top of
the protocol's loop. -/
theorem platform_waiter_leaves (backend : Backend Clock Place) (word : UInt32) (value : Shared)
    {state : PlatformState Shared Place}
    (reached : (platform Shared backend).Reachable FewBumpsInside ⟨initial word value, none⟩ state)
    {call : WaitCall Shared} {registered : Bool} {marked : UInt32} {timeoutMs : Int32} {place : Place}
    (here : state.protocol.waiter () = .wait call registered marked)
    (stay : state.stay = some (timeoutMs, place))
    (progress : call.pred state.protocol.shared state.protocol.word = false)
    (resting : state.protocol.bumper = .betweenRounds) (clock : Nat → Clock) :
    ∃ count, (platform Shared backend).Run FewBumpsInside state
      ((List.range count).map fun index => .waiter false 0 (clock index))
      ⟨state.protocol.goto () (.check call registered), none⟩ := by
  have secured : Secured backend state := by
    refine reached.invariant (Secured backend) ⟨initial_covered _ _ _, ?_, ?_, ?_⟩
      fun _ _ _ secured admitted taken => secured_step secured admitted taken
    all_goals simp
  have free := secured.not_stranded
  have outside : backend.queued place = false := by
    by_contra queued
    exact free ⟨call, registered, marked, timeoutMs, place, here, stay, progress, resting,
      .inl (by simpa using queued)⟩
  have changed : state.protocol.word ≠ marked := fun same =>
    free ⟨call, registered, marked, timeoutMs, place, here, stay, progress, resting, .inr same⟩
  have few := secured.few (by simp [stay])
  obtain ⟨protocol, _⟩ := state
  cases stay
  exact stay_ends few here outside changed clock

/-- The call a waiter is at the platform wait of. -/
def WaiterPc.atWait : WaiterPc Shared → Option (WaitCall Shared × Bool × UInt32)
  | .wait call registered marked => some (call, registered, marked)
  | _ => none

theorem WaiterPc.atWait_eq_some {pc : WaiterPc Shared} {call : WaitCall Shared} {registered : Bool}
    {marked : UInt32} :
    pc.atWait = some (call, registered, marked) ↔ pc = .wait call registered marked := by
  cases pc <;> simp [atWait]

/-- Over `WaitOnAddress`: the waiter slept, and a whole round of the bumper let it go. -/
theorem platform_waiter_leaves_notified : ∃ state : PlatformState Bool NativePc,
    (platform Bool (nativeBackend .waitOnAddress)).Reachable FewBumpsInside
        ⟨initial 0 false, none⟩ state ∧ state.stay.isSome = true ∧
      ∃ count after, (platform Bool (nativeBackend .waitOnAddress)).Run FewBumpsInside state
        ((List.range count).map fun _ => .waiter false 0 0) after ∧ after.stay = none := by
  let call : WaitCall Bool := { pred := fun progress _ => !progress }
  obtain ⟨state, run, passed⟩ := (platform Bool (nativeBackend .waitOnAddress)).run_of_replay
    FewBumpsInside ⟨initial 0 false, none⟩
    (.call call :: List.replicate 12 (.waiter false 0 0) ++ [.publish true, .bump, .notify])
    (fun state => state.stay.isSome && state.protocol.bumper == .betweenRounds &&
      (state.protocol.waiter ()).atWait.any fun wait =>
        !wait.1.pred state.protocol.shared state.protocol.word) (by decide +kernel)
  simp only [Bool.and_eq_true, beq_iff_eq] at passed
  obtain ⟨⟨inside, resting⟩, waiting⟩ := passed
  obtain ⟨⟨timeoutMs, place⟩, stay⟩ := Option.isSome_iff_exists.mp inside
  obtain ⟨⟨call, registered, marked⟩, here, progress⟩ := (Option.any_eq_true _ _).mp waiting
  obtain ⟨count, rest⟩ := platform_waiter_leaves _ 0 false ⟨_, run⟩
    (WaiterPc.atWait_eq_some.mp here) stay (by simpa using progress) resting fun _ => 0
  exact ⟨state, ⟨_, run⟩, inside, count, _, rest, rfl⟩

end SpscRing.NotifyWord
