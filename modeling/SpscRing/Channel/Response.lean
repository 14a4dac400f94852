import SpscRing.Channel.Blocking

/-! How long a wait lasts once there is nothing left to wait for: a bounded number
of steps of the waiting thread, none of which depends on anything but its peer's
way from the publication to the notify. -/

namespace SpscRing.NotifyWord

variable {Waiter Shared : Type}

/-- The steps a waiter has left in its call once its predicate is false for good. -/
def WaiterPc.stepsLeft : WaiterPc Shared → Nat
  | .idle => 0
  | .returning _ _ => 1
  | .clear _ _ => 2
  | .check _ _ | .recheck _ _ _ | .blocked _ _ _ => 3
  | .register _ _ | .wait _ _ _ => 4
  | .deadline _ _ _ => 5

theorem stepsLeft_woken (pc : WaiterPc Shared) : pc.woken.stepsLeft = pc.stepsLeft := by
  cases pc <;> rfl

theorem stepsLeft_le (pc : WaiterPc Shared) : pc.stepsLeft ≤ 5 := by
  cases pc <;> simp [WaiterPc.stepsLeft]

theorem stepsLeft_leave (call : WaitCall Shared) (registered result : Bool) :
    (leave call registered result).stepsLeft ≤ 2 := by
  cases registered <;> simp [leave, WaiterPc.stepsLeft]

variable [DecidableEq Waiter] {before after : State Waiter Shared} {self : Waiter} {expired : Bool}

/-- A waiter whose predicate is false comes one step closer to the end of its call. -/
theorem waiterStep_stepsLeft (taken : waiterStep before self expired = some after)
    (ready : ∀ call, (before.waiter self).call = some call →
      call.pred before.shared before.word = false) :
    (after.waiter self).stepsLeft < (before.waiter self).stepsLeft := by
  unfold waiterStep at taken
  cases pc : before.waiter self with
  | idle | blocked _ _ _ => simp [pc] at taken
  | check call registered | recheck call registered marked =>
    have progress := ready call (by simp [pc, WaiterPc.call])
    simp only [pc, progress, Bool.false_eq_true, if_false, Option.some.injEq] at taken
    subst taken
    rw [waiter_goto]
    exact Nat.lt_succ_of_le (stepsLeft_leave _ _ _)
  | register call registered =>
    simp only [pc, Option.some.injEq] at taken
    subst taken
    simp [State.goto, WaiterPc.stepsLeft]
  | deadline call registered marked =>
    simp only [pc] at taken
    split at taken <;> cases taken <;> rw [waiter_goto]
    · exact Nat.lt_of_le_of_lt (stepsLeft_leave _ _ _) (by simp [WaiterPc.stepsLeft])
    · simp [WaiterPc.stepsLeft]
  | wait call registered marked =>
    simp only [pc] at taken
    split at taken <;> cases taken <;> rw [waiter_goto] <;> simp [WaiterPc.stepsLeft]
  | clear call result =>
    simp only [pc, Option.some.injEq] at taken
    subst taken
    simp [State.goto, WaiterPc.stepsLeft]
  | returning call result =>
    simp only [pc, Option.some.injEq] at taken
    subst taken
    simp [State.goto, WaiterPc.stepsLeft]

/-- A waiter inside its call can always step unless it sleeps. -/
theorem waiterStep_enabled (inside : before.waiter self ≠ .idle)
    (awake : (before.waiter self).blockedCall = none) (expired : Bool) :
    (waiterStep before self expired).isSome = true := by
  unfold waiterStep
  cases pc : before.waiter self with
  | idle => exact absurd pc inside
  | blocked _ _ _ => simp [pc, WaiterPc.blockedCall] at awake
  | register _ _ | clear _ _ | returning _ _ => rfl
  | check _ _ | deadline _ _ _ | wait _ _ _ =>
    simp only
    split <;> rfl
  | recheck _ _ _ =>
    simp only
    split
    · split <;> rfl
    · rfl

end SpscRing.NotifyWord

namespace SpscRing.Channel

open SpscRing.Foundation SpscRing.NotifyWord

variable {Ring Act Arg : Type} {ends : Ends Ring Act Arg} {allowed : Ring → Act → Ring → Prop}
variable {sound : Ring → Prop} {before after state : State Ring} {self role : Role}
variable {action : Action Act Arg}

/-- The fronts only move in the direction the other end waits for. -/
def Progresses (ends : Ends Ring Act Arg) (allowed : Ring → Act → Ring → Prop)
    (sound : Ring → Prop) : Prop :=
  ∀ before action after arg, sound before → allowed before action after →
    ends.step before action = some after →
      ends.mustWait (ends.actor action).peer arg before
        (ends.front (ends.actor action) before) = false →
      ends.mustWait (ends.actor action).peer arg before
        (ends.front (ends.actor action) after) = false

/-- A step of the thread's own wait. -/
def Action.waits (role : Role) : Action Act Arg → Bool
  | .waiter self _ => self == role
  | _ => false

/-- An admitted step that does not start another wait of the thread. -/
structure Continues (allowed : Ring → Act → Ring → Prop) (role : Role)
    (before : State Ring) (action : Action Act Arg) (after : State Ring) : Prop where
  admitted : Admitted allowed before action after
  same : ∀ arg timeoutMs, action ≠ .wait role arg timeoutMs

/-- A sleeping thread is inside its call and takes no step of its own. -/
theorem asleep_stuck (asleep : (state.thread role).asleep = true) (expired : Bool) :
    (state.thread role).pc ≠ .idle ∧ step ends state (.waiter role expired) = none := by
  obtain ⟨call, sleeping⟩ := Option.isSome_iff_exists.mp asleep
  obtain ⟨registered, marked, blocked⟩ := WaiterPc.blockedCall_eq_some.mp sleeping
  exact ⟨by simp [blocked], by simp [step, waiterStep, State.view, blocked]⟩

section Steps

variable (lawful : Lawful ends allowed sound) (progresses : Progresses ends allowed sound)
include lawful

/-- What a step that starts no wait does to the wait of one thread. -/
theorem continues_cases (continues : Continues allowed role before action after)
    (taken : step ends before action = some after) :
    (∃ expired, action = .waiter role expired ∧
      waiterStep (before.view ends role) () expired = some (after.view ends role)) ∨
    (action.waits role = false ∧ ((after.thread role).pc = (before.thread role).pc ∨
      (after.thread role).pc = (before.thread role).pc.woken)) := by
  cases action with
  | ring act =>
    simp only [step, Option.ite_none_right_eq_some, Option.map_eq_some_iff] at taken
    obtain ⟨-, ring, -, rfl⟩ := taken
    refine .inr ⟨rfl, .inl ?_⟩
    unfold State.advance
    split
    · rcases role.eq_or_eq_peer (ends.actor act) with rfl | rfl <;> simp [State.bump]
    · rfl
  | notify self =>
    simp only [step, Option.ite_none_right_eq_some, Option.some.injEq] at taken
    obtain ⟨-, rfl⟩ := taken
    rcases role.eq_or_eq_peer self with rfl | rfl
    · exact .inr ⟨rfl, .inl (by simp [State.notify])⟩
    · exact .inr ⟨rfl, .inr (by simp [State.notify])⟩
  | wait self arg timeoutMs =>
    simp only [step, Option.ite_none_right_eq_some, Option.some.injEq] at taken
    obtain ⟨-, rfl⟩ := taken
    have different : role ≠ self := by
      rintro rfl
      exact continues.same arg timeoutMs rfl
    exact .inr ⟨rfl, .inl (by simp [State.startWait, put_other, different])⟩
  | waiter self expired =>
    simp only [step, Option.map_eq_some_iff] at taken
    obtain ⟨protocol, moved, rfl⟩ := taken
    rcases role.eq_or_eq_peer self with rfl | rfl
    · obtain ⟨shared, bumper, -⟩ := waiterStep_frame moved
      exact .inl ⟨expired, rfl, by rw [view_store lawful shared bumper]; exact moved⟩
    · exact .inr ⟨by simp [Action.waits], .inl (by simp [State.store])⟩
  | wake self =>
    simp only [step, Option.map_eq_some_iff] at taken
    obtain ⟨protocol, moved, rfl⟩ := taken
    rcases role.eq_or_eq_peer self with rfl | rfl
    · simp only [NotifyWord.step, State.view] at moved
      split at moved <;> cases moved
      rename_i asleep
      exact .inr ⟨rfl, .inr (by simp [State.store, NotifyWord.State.goto, asleep, WaiterPc.woken])⟩
    · exact .inr ⟨rfl, .inl (by simp [State.store])⟩

/-- The front a thread waits for moves only when its peer steps the ring. -/
theorem front_step (admitted : Admitted allowed before action after)
    (taken : step ends before action = some after) (role : Role) :
    ends.front role.peer after.ring = ends.front role.peer before.ring ∨
      ∃ act, ends.actor act = role.peer ∧ allowed before.ring act after.ring ∧
        ends.step before.ring act = some after.ring := by
  cases action with
  | ring act =>
    simp only [step, Option.ite_none_right_eq_some, Option.map_eq_some_iff] at taken
    obtain ⟨-, ring, moved, rfl⟩ := taken
    have ran : allowed before.ring act ring := advance_ring before (ends.actor act) ring ▸ admitted
    rw [advance_ring]
    rcases role.eq_or_eq_peer (ends.actor act) with rfl | rfl
    · exact .inl (lawful.leaves _ _ _ ran moved).front
    · exact .inr ⟨act, by simp, ran, moved⟩
  | notify self =>
    simp only [step, Option.ite_none_right_eq_some, Option.some.injEq] at taken
    obtain ⟨-, rfl⟩ := taken
    exact .inl rfl
  | wait self arg timeoutMs =>
    simp only [step, Option.ite_none_right_eq_some, Option.some.injEq] at taken
    obtain ⟨-, rfl⟩ := taken
    exact .inl rfl
  | waiter self _ | wake self =>
    simp only [step, Option.map_eq_some_iff] at taken
    obtain ⟨protocol, -, rfl⟩ := taken
    rcases role.eq_or_eq_peer self with rfl | rfl
    · exact .inl (lawful.front_setWord _ _ _)
    · exact .inl (lawful.peer_setWord _ _ _).front

include progresses in
/-- Once there is nothing to wait for, that stays so until the call is over. -/
theorem ready_step (valid : sound before.ring) (parked : Parked ends before role)
    (ready : Ready ends before role) (continues : Continues allowed role before action after)
    (taken : step ends before action = some after) : Ready ends after role := by
  intro call inside
  have begun : (before.thread role).pc.call = some call := by
    rcases continues_cases lawful continues taken with ⟨expired, -, moved⟩ | ⟨-, same | woken⟩
    · rcases waiterStep_call moved with same | ended
      · exact same ▸ inside
      · exact absurd (ended.symm.trans inside) (by simp)
    · exact same ▸ inside
    · rwa [woken, call_woken] at inside
  obtain ⟨-, arg, -, pred⟩ := parked.waits call begun
  have free := ready call begun
  rw [pred] at free ⊢
  rcases front_step lawful continues.admitted taken role with same | ⟨act, actor, ran, moved⟩
  · rw [same]
    exact free
  · have ahead := progresses _ _ _ arg valid ran moved
    rw [actor, Role.peer_peer] at ahead
    exact ahead free

end Steps

section Runs

variable (lawful : Lawful ends allowed sound) (progresses : Progresses ends allowed sound)
  {ring : Ring} (fresh : Fresh ends sound ring)
  (reached : (machine ends).Reachable
    (Machine.Both (Admitted allowed) (FewBumpsPerWait ends)) (initial ring) state)
include lawful progresses fresh reached

/-- A wait with nothing left to wait for takes at most five more steps of its own,
whatever the peer does meanwhile; and until it is over the thread can take the next
of them, or sleeps and is woken by the next steps of its peer. -/
theorem wait_returns (next : Role → Act)
    (proceeds : ∀ role ring, ends.publishing role ring = true → ends.actor (next role) = role ∧
      ∃ after, ends.step ring (next role) = some after ∧ ends.publishing role after = false)
    {actions : List (Action Act Arg)} (ready : Ready ends state role)
    (run : (machine ends).Run (Machine.Both (Continues allowed role) (FewBumpsPerWait ends))
      state actions after) :
    actions.countP (Action.waits role) ≤ 5 ∧
      ((after.thread role).pc = .idle ∨
        (∀ expired, (step ends after (.waiter role expired)).isSome = true) ∨
        WakesSoon ends next after role) := by
  have held := reachable_parked lawful fresh (reached.mono fun _ _ _ both => both.1)
  let invariant (state : State Ring) : Prop :=
    sound state.ring ∧ (∀ role, Parked ends state role) ∧ Ready ends state role
  have kept : ∀ before action after, invariant before →
      Machine.Both (Continues allowed role) (FewBumpsPerWait ends) before action after →
      (machine ends).step before action = some after → invariant after := by
    rintro before action after ⟨valid, parked, ready⟩ ⟨continues, -⟩ taken
    exact ⟨sound_step lawful valid continues.admitted taken,
      parked_step lawful parked continues.admitted taken,
      ready_step lawful progresses valid (parked role) ready continues taken⟩
  constructor
  · have used := run.countP_le (Action.waits role) (fun state => (state.thread role).pc.stepsLeft)
      invariant kept ?_ ⟨held.1, held.2, ready⟩
    · have bound := stepsLeft_le (state.thread role).pc
      exact Nat.le_trans (Nat.le_trans (Nat.le_add_right _ _) used) bound
    · rintro before action after ⟨-, -, ready⟩ ⟨continues, -⟩ taken
      rcases continues_cases lawful continues taken with ⟨expired, rfl, moved⟩ | ⟨other, same | woken⟩
      · have closer := waiterStep_stepsLeft moved ready
        simpa [Action.waits, State.view, Nat.succ_le_iff] using closer
      · simp [other, same]
      · simp [other, woken, stepsLeft_woken]
  · have later := reached.run (run.mono fun _ _ _ _ both => ⟨both.1.admitted, both.2⟩)
    have ready := (run.preserves invariant kept ⟨held.1, held.2, ready⟩).2.2
    by_cases idle : (after.thread role).pc = .idle
    · exact .inl idle
    · cases asleep : (after.thread role).pc.blockedCall with
      | none =>
        refine .inr (.inl fun expired => ?_)
        have enabled : (waiterStep (after.view ends role) () expired).isSome = true :=
          waiterStep_enabled idle asleep expired
        simpa [step] using enabled
      | some call =>
        exact .inr (.inr (woken_by_peer lawful fresh later next proceeds
          (by simp [Thread.asleep, asleep]) ready))

end Runs

end SpscRing.Channel
