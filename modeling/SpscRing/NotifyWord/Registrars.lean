import SpscRing.NotifyWord.Wakeup

/-! Several waiters on one word. The flag is shared and each waiter decides
alone whether to take it down, so an exiting registrar can strand a waiter that
found the flag already up. -/

namespace SpscRing.NotifyWord

open SpscRing.Foundation

variable {Waiter Shared : Type}

/-- The predicate looks at the word through `notify_seq_value` only. -/
def WaitCall.IgnoresFlag (call : WaitCall Shared) : Prop :=
  ∀ value word other, notifySeqValue word = notifySeqValue other →
    call.pred value word = call.pred value other

/-- The runs on which racing registrars are safe: no waiter takes the flag down
while that exposes another one. -/
def RegistrarsApart [DecidableEq Waiter] (before : State Waiter Shared)
    (action : Action Waiter Shared) (after : State Waiter Shared) : Prop :=
  FewBumps before action after ∧
    match action with
    | .call _ call => call.IgnoresFlag
    | .waiter self _ => ClearsSafely before self
    | _ => True

def CallsIgnoreFlag (state : State Waiter Shared) : Prop :=
  ∀ waiter call, (state.waiter waiter).call = some call → call.IgnoresFlag

theorem call_woken (pc : WaiterPc Shared) : pc.woken.call = pc.call := by
  cases pc <;> rfl

theorem call_leave (call : WaitCall Shared) (registered result : Bool) :
    (leave call registered result).call = some call := by
  cases registered <;> rfl

variable [DecidableEq Waiter] {before after : State Waiter Shared} {self : Waiter}

theorem waiter_goto (state : State Waiter Shared) (pc : WaiterPc Shared) :
    (state.goto self pc).waiter self = pc := by
  simp [State.goto]

/-- A waiter's step stays within its call or ends it. -/
theorem waiterStep_call {expired : Bool} (taken : waiterStep before self expired = some after) :
    (after.waiter self).call = (before.waiter self).call ∨ (after.waiter self).call = none := by
  unfold waiterStep at taken
  cases pc : before.waiter self with
  | idle | blocked _ _ _ => simp [pc] at taken
  | check call registered =>
    simp only [pc] at taken
    split at taken <;> cases taken <;> left <;> rw [waiter_goto]
    · rfl
    · exact call_leave _ _ _
  | register call registered =>
    simp only [pc, Option.some.injEq] at taken
    subst taken
    left
    simp [State.goto, WaiterPc.call]
  | recheck call registered marked =>
    simp only [pc] at taken
    split at taken
    · split at taken <;> cases taken <;> left <;> rw [waiter_goto] <;> rfl
    · cases taken
      left
      rw [waiter_goto]
      exact call_leave _ _ _
  | deadline call registered marked =>
    simp only [pc] at taken
    split at taken <;> cases taken <;> left <;> rw [waiter_goto]
    · exact call_leave _ _ _
    · rfl
  | wait call registered marked =>
    simp only [pc] at taken
    split at taken <;> cases taken <;> left <;> rw [waiter_goto] <;> rfl
  | clear call result =>
    simp only [pc, Option.some.injEq] at taken
    subst taken
    left
    simp [State.goto, WaiterPc.call]
  | returning call result =>
    simp only [pc, Option.some.injEq] at taken
    subst taken
    right
    rw [waiter_goto]
    rfl

theorem callsIgnoreFlag_step {action : Action Waiter Shared} (ignore : CallsIgnoreFlag before)
    (apart : RegistrarsApart before action after) (taken : step before action = some after) :
    CallsIgnoreFlag after := by
  intro waiter call current
  obtain ⟨fresh, rfl, called⟩ | ⟨expired, rfl, stepped⟩ | ⟨-, kept | woken⟩ :=
    step_waiter_cases waiter taken
  · rw [called] at current
    cases current
    exact apart.2
  · rcases waiterStep_call stepped with kept | ended
    · exact ignore waiter call (kept ▸ current)
    · simp [ended] at current
  · exact ignore waiter call (kept ▸ current)
  · rw [woken, call_woken] at current
    exact ignore waiter call current

/-- Flag changes are invisible to predicates that strip the flag. -/
theorem CallsIgnoreFlag.undisturbed {expired : Bool} (ignore : CallsIgnoreFlag before)
    (taken : waiterStep before self expired = some after) : LeavesUndisturbed before self after := by
  intro other _ call current
  apply ignore other call current
  rw [← UInt32.toNat_inj, toNat_notifySeqValue, toNat_notifySeqValue]
  exact waiterStep_sequence taken

/-- Any number of waiters: no wakeup is lost on a run in which every waiter
that takes the flag down leaves nobody exposed. -/
theorem registrars_no_lost_wakeup (word : UInt32) (value : Shared) {state : State Waiter Shared}
    (reached : (machine Waiter Shared).Reachable RegistrarsApart (initial word value) state)
    (waiter : Waiter) : ¬ LostWakeup state waiter := by
  have safe : (∀ waiter, Covered state waiter) ∧ CallsIgnoreFlag state := by
    refine reached.invariant
      (fun state => (∀ waiter, Covered state waiter) ∧ CallsIgnoreFlag state)
      ⟨initial_covered word value, by simp [CallsIgnoreFlag, initial, WaiterPc.call]⟩ ?_
    rintro before action after ⟨covered, ignore⟩ apart taken
    refine ⟨covered_step covered apart.1 ?_ taken, callsIgnoreFlag_step ignore apart taken⟩
    rintro self expired rfl
    exact ⟨apart.2, ignore.undisturbed taken⟩
  exact (safe.1 waiter).not_lost

/-- The waiter is about to take the flag down. -/
def WaiterPc.isClear : WaiterPc Shared → Bool
  | .clear _ _ => true
  | _ => false

/-- The action takes the flag down. -/
def Action.clears (before : State Waiter Shared) : Action Waiter Shared → Bool
  | .waiter self _ => (before.waiter self).isClear
  | _ => false

/-- Two waiters asleep side by side, each covered by the flag they share. -/
theorem registrars_no_lost_wakeup_asleep : ∃ state : State Bool Bool,
    (machine Bool Bool).Reachable RegistrarsApart (initial 0x80000000 false) state ∧
      (∀ waiter, ∃ call registered marked, state.waiter waiter = .blocked call registered marked) ∧
      ∀ waiter, ¬ LostWakeup state waiter := by
  let call : WaitCall Bool := { pred := fun progress _ => !progress }
  obtain ⟨state, run, asleep⟩ := (machine Bool Bool).run_of_replay
    (fun before action _ => fewBumps before action = true ∧ action.clears before = false)
    (initial 0x80000000 false)
    [.call false call, .waiter false false, .waiter false false, .waiter false false,
      .waiter false false, .call true call, .waiter true false, .waiter true false,
      .waiter true false, .waiter true false]
    (fun state => [false, true].all fun waiter => (state.waiter waiter).blockedCall.isSome)
    (by decide)
  have apart : (machine Bool Bool).Reachable RegistrarsApart (initial 0x80000000 false) state := by
    refine ⟨_, run.mono ?_⟩
    rintro action member before after ⟨few, quiet⟩
    refine ⟨few, ?_⟩
    cases action with
    | call self fresh =>
      have same : fresh = call := by
        simp only [List.mem_cons, Action.call.injEq, reduceCtorEq, List.not_mem_nil] at member
        tauto
      exact same ▸ fun _ _ _ _ => rfl
    | waiter self expired =>
      rintro ⟨call, result, clears⟩
      simp [Action.clears, WaiterPc.isClear, clears] at quiet
    | wake _ | publish _ | bump | notify => trivial
  refine ⟨state, apart, ?_, registrars_no_lost_wakeup _ _ apart⟩
  intro waiter
  have sleeping := List.all_eq_true.mp asleep waiter (by cases waiter <;> simp)
  obtain ⟨call, found⟩ := Option.isSome_iff_exists.mp sleeping
  exact ⟨call, WaiterPc.blockedCall_eq_some.mp found⟩

/-- A timed waiter registers and sets the flag; a second waiter finds it set
and goes to sleep; the first one times out and takes the flag down. The bumper's
next round then sees no flag and wakes nobody. -/
theorem racing_registrar_loses_wakeup : ∃ state : State Bool Bool,
    (machine Bool Bool).Reachable FewBumps (initial 0 false) state ∧ LostWakeup state true := by
  let timed : WaitCall Bool := { pred := fun progress _ => !progress, timeoutMs := some 1 }
  let untimed : WaitCall Bool := { pred := fun progress _ => !progress }
  obtain ⟨state, run, lost⟩ := (machine Bool Bool).run_of_replay FewBumps (initial 0 false)
    [.call false timed, .waiter false false, .waiter false false, .waiter false false,
      .call true untimed, .waiter true false, .waiter true false, .waiter true false,
      .waiter true false, .waiter false true, .waiter false false, .publish true, .bump]
    (fun state => (state.waiter true).blockedCall.any fun call =>
      !call.pred state.shared state.word && decide (state.bumper = .betweenRounds)) (by decide)
  obtain ⟨call, asleep, ready⟩ := (Option.any_eq_true _ _).mp lost
  obtain ⟨registered, marked, blocked⟩ := WaiterPc.blockedCall_eq_some.mp asleep
  simp only [Bool.and_eq_true, Bool.not_eq_true', decide_eq_true_eq] at ready
  exact ⟨state, ⟨_, run⟩, call, registered, marked, blocked, ready⟩

end SpscRing.NotifyWord
