import SpscRing.NotifyWord.Wakeup

/-! How the waiter flag follows the registrations of one waiter at a time when
the counter overflows into it. A carry out of bit 30 raises the flag with nobody
registered; a waiter that finds it raised does not own it and leaves it raised. -/

namespace SpscRing.NotifyWord

open SpscRing.Foundation

variable {Shared : Type}

/-- When a call that executed its `fetch_or` returns, the flag is down, unless
a bump carried into it after the call's last read-modify-write. -/
def FlagDownOnReturn (state : State Unit Shared) : Prop :=
  ∀ call result, state.waiter () = .returning call result → state.marks () = true →
    hasWaiter state.word = false ∨ state.carried () = true

/-- The first `fetch_or` of every call finds the flag down. -/
def FindsFlagDown (before : State Unit Shared) (action : Action Unit Shared)
    (_ : State Unit Shared) : Prop :=
  ∀ expired call registered, action = .waiter () expired →
    before.waiter () = .register call registered → before.marks () = false →
    hasWaiter before.word = false

/-- The flag is up only through a carry since the last read-modify-write. -/
def FlagDown (state : State Unit Shared) : Prop :=
  hasWaiter state.word = false ∨ state.carried () = true

/-- Between its first `fetch_or` and its exit the waiter owns the flag; outside
of that span the flag is down. -/
def FlagOwned (state : State Unit Shared) : Prop :=
  match state.waiter () with
  | .idle | .returning .. => FlagDown state
  | .check _ registered | .register _ registered =>
    (state.marks () = true → registered = true) ∧ (state.marks () = false → FlagDown state)
  | .recheck _ registered _ | .deadline _ registered _ | .wait _ registered _
  | .blocked _ registered _ => state.marks () = true ∧ registered = true
  | .clear .. => True

theorem initial_flagOwned {word : UInt32} (down : hasWaiter word = false) (value : Shared) :
    FlagOwned (initial word value : State Unit Shared) := .inl down

variable {before after : State Unit Shared}

theorem flagOwned_leave {state : State Unit Shared} {call : WaitCall Shared}
    {registered result : Bool} (owned : registered = true ∨ FlagDown state) :
    FlagOwned (state.goto () (leave call registered result)) := by
  cases registered with
  | true => simp [FlagOwned, State.goto, leave]
  | false =>
    simp only [Bool.false_eq_true, false_or] at owned
    simpa [FlagOwned, State.goto, leave, FlagDown] using owned

theorem flagOwned_waiterStep {expired : Bool} (owned : FlagOwned before)
    (finds : FindsFlagDown before (.waiter () expired) after)
    (taken : waiterStep before () expired = some after) : FlagOwned after := by
  unfold waiterStep at taken
  unfold FlagOwned at owned
  cases pc : before.waiter () with
  | idle | blocked _ _ _ => simp [pc] at taken
  | check call registered =>
    simp only [pc] at taken owned
    have exit : registered = true ∨ FlagDown before := by
      cases marks : before.marks () with
      | true => exact .inl (owned.1 marks)
      | false => exact .inr (owned.2 marks)
    split at taken <;> cases taken
    · simpa [FlagOwned, State.goto, FlagDown] using owned
    · exact flagOwned_leave exit
  | register call registered =>
    simp only [pc, Option.some.injEq] at taken owned
    subst taken
    have held : registered = true ∨ hasWaiter before.word = false := by
      cases marks : before.marks () with
      | true => exact .inl (owned.1 marks)
      | false => exact .inr (finds expired call registered rfl pc marks)
    simp only [FlagOwned, State.goto, Function.update_self, true_and]
    rcases held with own | down <;> simp [*]
  | recheck call registered marked =>
    simp only [pc] at taken owned
    split at taken
    · split at taken <;> cases taken <;> simpa [FlagOwned, State.goto] using owned
    · cases taken
      exact flagOwned_leave (.inl owned.2)
  | deadline call registered marked =>
    simp only [pc] at taken owned
    split at taken <;> cases taken
    · exact flagOwned_leave (.inl owned.2)
    · simpa [FlagOwned, State.goto] using owned
  | wait call registered marked =>
    simp only [pc] at taken owned
    split at taken <;> cases taken
    · simpa [FlagOwned, State.goto] using owned
    · simp [FlagOwned, State.goto, owned.1, owned.2]
  | clear call result =>
    simp only [pc, Option.some.injEq] at taken
    subst taken
    simp [FlagOwned, State.goto, FlagDown, hasWaiter_clearWaiter]
  | returning call result =>
    simp only [pc, Option.some.injEq] at taken owned
    subst taken
    simpa [FlagOwned, State.goto, FlagDown] using owned

theorem FlagDown.bump (down : FlagDown before) (word : after.word = before.word + 1)
    (carried : after.carried () = (before.carried () || carries before.word)) : FlagDown after := by
  by_cases overflow : carries before.word = true
  · exact .inr (by simp [carried, overflow])
  · have same := hasWaiter_bump (by simpa using overflow)
    rcases down with clear | earlier
    · exact .inl (by rw [word, same]; exact clear)
    · exact .inr (by simp [carried, earlier])

theorem flagOwned_step {action : Action Unit Shared} (owned : FlagOwned before)
    (finds : FindsFlagDown before action after) (taken : step before action = some after) :
    FlagOwned after := by
  cases action with
  | call self call =>
    simp only [step] at taken
    split at taken <;> cases taken
    rename_i resting
    simpa [FlagOwned, State.goto, resting, FlagDown] using owned
  | waiter self expired => exact flagOwned_waiterStep owned finds taken
  | wake self =>
    simp only [step] at taken
    split at taken <;> cases taken
    rename_i call registered marked asleep
    simp only [FlagOwned, asleep] at owned
    simp [FlagOwned, State.goto, owned.1, owned.2]
  | publish value =>
    simp only [step] at taken
    split at taken <;> cases taken
    exact owned
  | bump =>
    simp only [step, bumpNotifyWord] at taken
    split at taken <;> cases taken
    unfold FlagOwned at owned ⊢
    cases pc : before.waiter () with
    | idle | returning _ _ =>
      simp only [pc] at owned
      exact owned.bump rfl rfl
    | check call registered | register call registered =>
      simp only [pc] at owned
      exact ⟨owned.1, fun unmarked => (owned.2 unmarked).bump rfl rfl⟩
    | recheck call registered marked | deadline call registered marked
    | wait call registered marked | blocked call registered marked =>
      simpa [pc] using owned
    | clear call result => trivial
  | notify =>
    simp only [step] at taken
    split at taken <;> cases taken
    unfold FlagOwned at owned ⊢
    cases pc : before.waiter () with
    | blocked call registered marked =>
      simp only [pc] at owned
      simp [pc, WaiterPc.woken, owned.1, owned.2]
    | clear _ _ => simp [pc, WaiterPc.woken]
    | idle | check _ _ | register _ _ | recheck _ _ _ | deadline _ _ _ | wait _ _ _
    | returning _ _ => simpa [pc, WaiterPc.woken, FlagDown] using owned

/-- On runs where every call's first `fetch_or` finds the flag down, a
returning call leaves it down, and with no call in progress bumps report no
waiter until the next carry. -/
theorem flag_down_on_return {word : UInt32} (down : hasWaiter word = false) (value : Shared)
    {state : State Unit Shared}
    (reached : (machine Unit Shared).Reachable FindsFlagDown (initial word value) state) :
    FlagDownOnReturn state ∧ (state.waiter () = .idle → state.carried () = false →
      (bumpNotifyWord state.word).2 = false) := by
  have owned : FlagOwned state := reached.invariant FlagOwned (initial_flagOwned down value)
    fun _ _ _ owned finds taken => flagOwned_step owned finds taken
  constructor
  · intro call result returning marked
    simpa only [FlagOwned, returning, FlagDown] using owned
  · intro resting uncarried
    simpa [FlagOwned, resting, FlagDown, uncarried, bumpNotifyWord] using owned

/-- A call registers on a word whose flag is down, is bumped through the
overflow of the whole word, and returns. -/
theorem flag_down_on_return_wrapped : ∃ state : State Unit Bool,
    (machine Unit Bool).Reachable FindsFlagDown (initial 0x7FFFFFFF false) state ∧
      state.marks () = true ∧ state.word = 0 ∧ FlagDownOnReturn state := by
  let call : WaitCall Bool := { pred := fun progress _ => !progress }
  let allowed (before : State Unit Bool) (_ : Action Unit Bool) (_ : State Unit Bool) : Prop :=
    before.marks () = false → before.word = 0x7FFFFFFF
  obtain ⟨state, run, ended⟩ := (machine Unit Bool).run_of_replay allowed
    (initial 0x7FFFFFFF false)
    [.call () call, .waiter () false, .waiter () false, .publish true, .bump, .notify,
      .waiter () false, .waiter () false]
    (fun state => decide (state.marks () = true ∧ state.word = 0)) (by decide)
  have reached : (machine Unit Bool).Reachable FindsFlagDown (initial 0x7FFFFFFF false) state := by
    refine ⟨_, run.mono ?_⟩
    rintro action - before after first expired call registered - - unmarked
    rw [first unmarked]
    decide
  simp only [decide_eq_true_eq] at ended
  exact ⟨state, reached, ended.1, ended.2, (flag_down_on_return (by decide) false reached).1⟩

/-- The waiter has left its loop. -/
def WaiterPc.isReturning : WaiterPc Shared → Bool
  | .returning _ _ => true
  | _ => false

theorem WaiterPc.isReturning_iff {pc : WaiterPc Shared} :
    pc.isReturning = true ↔ ∃ call result, pc = .returning call result := by
  cases pc <;> simp [isReturning]

/-- One carry raises the flag with nobody registered. The next call finds it
raised, takes it for another waiter's, and returns with the flag still up although
no bump carried since. -/
theorem spurious_flag_survives_return : ∃ state : State Unit Bool,
    (machine Unit Bool).Reachable Machine.Always (initial 0x7FFFFFFF false) state ∧
      ¬ FlagDownOnReturn state := by
  let call : WaitCall Bool := { pred := fun progress _ => !progress }
  obtain ⟨state, run, ended⟩ := (machine Unit Bool).run_of_replay Machine.Always
    (initial 0x7FFFFFFF false)
    [.publish false, .bump, .call () call, .waiter () false, .waiter () false, .publish true,
      .waiter () false]
    (fun state => (state.waiter ()).isReturning && state.marks () && hasWaiter state.word &&
      !state.carried ()) (by decide)
  simp only [Bool.and_eq_true, Bool.not_eq_true', WaiterPc.isReturning_iff] at ended
  obtain ⟨⟨⟨⟨call, result, returning⟩, marked⟩, flagged⟩, uncarried⟩ := ended
  refine ⟨state, ⟨_, run⟩, fun down => ?_⟩
  rcases down call result returning marked with clear | carried
  · simp [clear] at flagged
  · simp [carried] at uncarried

end SpscRing.NotifyWord
