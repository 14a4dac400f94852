import SpscRing.Channel.Fixed
import SpscRing.Channel.Varlen

/-! What the result of a wait says: true that the thing waited for is there and stays
there until the thread itself takes it, false that the call had a timeout. -/

namespace SpscRing.NotifyWord

variable {Waiter Shared : Type}

/-- The call a waiter is leaving, with the result it is going to return. -/
def WaiterPc.verdict : WaiterPc Shared → Option (WaitCall Shared × Bool)
  | .clear call result | .returning call result => some (call, result)
  | _ => none

/-- A waiter computes its remaining time in a call with a timeout only. -/
def WaiterPc.Timed (pc : WaiterPc Shared) : Prop :=
  ∀ call registered marked, pc = .deadline call registered marked → call.hasDeadline = true

theorem verdict_woken (pc : WaiterPc Shared) : pc.woken.verdict = pc.verdict := by
  cases pc <;> rfl

theorem timed_woken {pc : WaiterPc Shared} (timed : pc.Timed) : pc.woken.Timed := by
  cases pc <;> simp_all [WaiterPc.woken, WaiterPc.Timed]

theorem verdict_leave (call : WaitCall Shared) (registered result : Bool) :
    (leave call registered result).verdict = some (call, result) := by
  cases registered <;> rfl

theorem timed_leave (call : WaitCall Shared) (registered result : Bool) :
    (leave call registered result).Timed := by
  cases registered <;> simp [leave, WaiterPc.Timed]

variable [DecidableEq Waiter] {before after : State Waiter Shared} {self : Waiter} {expired : Bool}

theorem waiterStep_timed (taken : waiterStep before self expired = some after) :
    (after.waiter self).Timed := by
  unfold waiterStep at taken
  cases pc : before.waiter self with
  | idle | blocked _ _ _ => simp [pc] at taken
  | check call registered =>
    simp only [pc] at taken
    split at taken <;> cases taken <;> rw [waiter_goto]
    · simp [WaiterPc.Timed]
    · exact timed_leave _ _ _
  | recheck call registered marked =>
    simp only [pc] at taken
    split at taken
    · split at taken <;> cases taken <;> rw [waiter_goto]
      · rename_i deadline
        simpa [WaiterPc.Timed] using deadline
      · simp [WaiterPc.Timed]
    · cases taken
      rw [waiter_goto]
      exact timed_leave _ _ _
  | deadline call registered marked =>
    simp only [pc] at taken
    split at taken <;> cases taken <;> rw [waiter_goto]
    · exact timed_leave _ _ _
    · simp [WaiterPc.Timed]
  | wait call registered marked =>
    simp only [pc] at taken
    split at taken <;> cases taken <;> rw [waiter_goto] <;> simp [WaiterPc.Timed]
  | register _ _ | clear _ _ | returning _ _ =>
    simp only [pc, Option.some.injEq] at taken
    subst taken
    simp [State.goto, WaiterPc.Timed]

/-- A waiter comes to its result by a predicate it found false or a timeout that ran out. -/
theorem waiterStep_verdict {call : WaitCall Shared} {result : Bool}
    (timed : (before.waiter self).Timed) (taken : waiterStep before self expired = some after)
    (ended : (after.waiter self).verdict = some (call, result)) :
    (before.waiter self).verdict = some (call, result) ∨
      (result = true ∧ (before.waiter self).call = some call ∧
        call.pred before.shared before.word = false) ∨
      (result = false ∧ call.hasDeadline = true) := by
  unfold waiterStep at taken
  cases pc : before.waiter self with
  | idle | blocked _ _ _ => simp [pc] at taken
  | check given registered =>
    simp only [pc] at taken
    split at taken <;> cases taken <;> rw [waiter_goto] at ended
    · simp [WaiterPc.verdict] at ended
    · rename_i free
      rw [verdict_leave] at ended
      cases ended
      exact .inr (.inl ⟨rfl, rfl, by simpa using free⟩)
  | recheck given registered marked =>
    simp only [pc] at taken
    split at taken
    · split at taken <;> cases taken <;> simp [State.goto, WaiterPc.verdict] at ended
    · rename_i free
      cases taken
      rw [waiter_goto, verdict_leave] at ended
      cases ended
      exact .inr (.inl ⟨rfl, rfl, by simpa using free⟩)
  | deadline given registered marked =>
    simp only [pc] at taken
    split at taken <;> cases taken <;> rw [waiter_goto] at ended
    · rw [verdict_leave] at ended
      cases ended
      exact .inr (.inr ⟨rfl, timed _ _ _ pc⟩)
    · simp [WaiterPc.verdict] at ended
  | wait given registered marked =>
    simp only [pc] at taken
    split at taken <;> cases taken <;> simp [State.goto, WaiterPc.verdict] at ended
  | register given registered =>
    simp only [pc, Option.some.injEq] at taken
    subst taken
    simp [State.goto, WaiterPc.verdict] at ended
  | clear given returned =>
    simp only [pc, Option.some.injEq] at taken
    subst taken
    left
    simpa [State.goto, WaiterPc.verdict] using ended
  | returning given returned =>
    simp only [pc, Option.some.injEq] at taken
    subst taken
    simp [State.goto, WaiterPc.verdict] at ended

end SpscRing.NotifyWord

namespace SpscRing.Channel

open SpscRing.Foundation SpscRing.NotifyWord

section General

variable {Ring Act Arg : Type} {ends : Ends Ring Act Arg} {allowed : Ring → Act → Ring → Prop}
variable {sound : Ring → Prop} {before after state : State Ring} {role : Role}
variable {action : Action Act Arg}

/-- The result a thread is going to return from its wait is true to the ring. -/
structure Truthful (ends : Ends Ring Act Arg) (state : State Ring) (role : Role) : Prop where
  timed : (state.thread role).pc.Timed
  met : ∀ call, (state.thread role).pc.verdict = some (call, true) → Ready ends state role
  expired : ∀ call, (state.thread role).pc.verdict = some (call, false) → call.hasDeadline = true

variable (lawful : Lawful ends allowed sound) (progresses : Progresses ends allowed sound)
include lawful progresses

theorem truthful_step (valid : sound before.ring) (parked : Parked ends before role)
    (truthful : Truthful ends before role) (admitted : Admitted allowed before action after)
    (taken : step ends before action = some after) : Truthful ends after role := by
  by_cases starts : ∃ arg timeoutMs, action = .wait role arg timeoutMs
  · obtain ⟨arg, timeoutMs, rfl⟩ := starts
    simp only [step, Option.ite_none_right_eq_some, Option.some.injEq] at taken
    obtain ⟨-, rfl⟩ := taken
    refine ⟨?_, ?_, ?_⟩ <;> simp [State.startWait, WaiterPc.verdict, WaiterPc.Timed]
  · have continues : Continues allowed role before action after :=
      ⟨admitted, fun arg timeoutMs same => starts ⟨arg, timeoutMs, same⟩⟩
    have kept (ready : Ready ends before role) : Ready ends after role :=
      ready_step lawful progresses valid parked ready continues taken
    rcases continues_cases lawful continues taken with ⟨expired, -, moved⟩ | ⟨-, same | woken⟩
    · refine ⟨waiterStep_timed moved, fun call ended => ?_, fun call ended => ?_⟩
      · rcases waiterStep_verdict truthful.timed moved ended with earlier | ⟨-, inside, free⟩ | no
        · exact kept (truthful.met call earlier)
        · refine kept fun given begun => ?_
          cases Option.some.inj (begun.symm.trans inside)
          exact free
        · simp at no
      · rcases waiterStep_verdict truthful.timed moved ended with earlier | no | ⟨-, deadline⟩
        · exact truthful.expired call earlier
        · simp at no
        · exact deadline
    · refine ⟨same ▸ truthful.timed, fun call ended => ?_, fun call ended => ?_⟩
      · exact kept (truthful.met call (same ▸ ended))
      · exact truthful.expired call (same ▸ ended)
    · refine ⟨woken ▸ timed_woken truthful.timed, fun call ended => ?_, fun call ended => ?_⟩
      · rw [woken, verdict_woken] at ended
        exact kept (truthful.met call ended)
      · rw [woken, verdict_woken] at ended
        exact truthful.expired call ended

/-- In every state of every run. -/
theorem reachable_truthful {ring : Ring} (fresh : Fresh ends sound ring)
    (reached : (machine ends).Reachable (Admitted allowed) (initial ring) state) (role : Role) :
    Truthful ends state role := by
  have held := reached.invariant (fun state => (sound state.ring ∧ ∀ role, Parked ends state role) ∧
    Truthful ends state role) ?_ ?_
  · exact held.2
  · refine ⟨⟨fresh.sound, fun role => ⟨by simp [initial], by simp [initial, WaiterPc.call]⟩⟩, ?_⟩
    refine ⟨?_, ?_, ?_⟩ <;> simp [initial, WaiterPc.verdict, WaiterPc.Timed]
  · rintro before action after ⟨⟨valid, parked⟩, truthful⟩ admitted taken
    exact ⟨⟨sound_step lawful valid admitted taken, parked_step lawful parked admitted taken⟩,
      truthful_step lawful progresses valid (parked role) truthful admitted taken⟩

end General

/-- Both layouts: in every state of every run of two blocking threads, a thread that is
leaving its wait with true has its predicate false now, not only when it looked; one
that is leaving with false called with a timeout. -/
theorem wait_verdict_truthful {header block : ControlBlock} {capacity : UInt64}
    {layout : LayoutType} {alignment itemSize : UInt32} (data : Memory) (role : Role)
    (accepted : initControlBlock header capacity layout alignment itemSize = some block) :
    (layout = .fixed → isValidFixedRing block = true → ∀ channel,
      (machine (Fixed.ends block)).Reachable (Fixed.Blocking block)
          (initial (Fixed.initial block data)) channel →
        Truthful (Fixed.ends block) channel role) ∧
    (layout = .varlen → ∀ channel,
      (machine (Varlen.ends block)).Reachable (Varlen.Blocking block)
          (initial (Varlen.initial block data)) channel →
        Truthful (Varlen.ends block) channel role) := by
  obtain ⟨shape, fresh, -⟩ := initControlBlock_accepted accepted
  constructor
  · intro _ valid channel reached
    have geometry := Fixed.fixedGeometry_of_valid valid
    exact reachable_truthful (Fixed.ends_lawful geometry) (Fixed.ends_progress geometry)
      (Fixed.ends_fresh fresh) reached role
  · intro _ channel reached
    exact reachable_truthful (Varlen.ends_lawful shape.toShape) (Varlen.ends_progress shape.toShape)
      (Varlen.ends_fresh fresh) reached role

/-- A consumer slept on an empty fixed ring, was woken by a commit and is leaving with
true; a producer on a full variable-length ring is leaving with false. -/
theorem wait_verdict_truthful_woken :
    (∃ channel, (machine (Fixed.ends Fixed.sampleBlock)).Reachable (Fixed.Blocking Fixed.sampleBlock)
          (initial (Fixed.initial Fixed.sampleBlock fun _ => 0)) channel ∧
        ((channel.thread .consumer).pc.verdict.any fun verdict => verdict.2) = true ∧
        Truthful (Fixed.ends Fixed.sampleBlock) channel .consumer) ∧
    ∃ channel,
      (machine (Varlen.ends Varlen.sampleBlock)).Reachable (Varlen.Blocking Varlen.sampleBlock)
          (initial (Varlen.initial Varlen.sampleBlock fun _ => 0)) channel ∧
        ((channel.thread .producer).pc.verdict.any fun verdict => !verdict.2) = true ∧
        Truthful (Varlen.ends Varlen.sampleBlock) channel .producer := by
  constructor
  · obtain ⟨channel, run, passed⟩ := (machine (Fixed.ends Fixed.sampleBlock)).run_of_replay
      (Fixed.Blocking Fixed.sampleBlock) (initial (Fixed.initial Fixed.sampleBlock fun _ => 0))
      (.wait .consumer () none :: List.replicate 4 (.waiter .consumer false) ++
        .ring (.call (.write (fun _ => 7) 16)) :: List.replicate 6 (.ring .writer) ++
        [.notify .producer, .waiter .consumer false])
      (fun channel => (channel.thread .consumer).pc.verdict.any fun verdict => verdict.2)
      (by decide +kernel)
    exact ⟨channel, ⟨_, run⟩, passed, (wait_verdict_truthful _ .consumer
      Fixed.sampleBlock_accepted).1 rfl (by decide) channel ⟨_, run⟩⟩
  · obtain ⟨channel, run, passed⟩ := (machine (Varlen.ends Varlen.sampleBlock)).run_of_replay
      (Varlen.Blocking Varlen.sampleBlock) (initial (Varlen.initial Varlen.sampleBlock fun _ => 0))
      (.ring (.call (Varlen.write 4 (some fun _ => 7))) :: List.replicate 8 (.ring .writer) ++
        .wait .producer 4 (some 0) :: List.replicate 4 (.waiter .producer true))
      (fun channel => (channel.thread .producer).pc.verdict.any fun verdict => !verdict.2)
      (by decide +kernel)
    exact ⟨channel, ⟨_, run⟩, passed, (wait_verdict_truthful _ .producer
      Varlen.sampleBlock_accepted).2 rfl channel ⟨_, run⟩⟩

end SpscRing.Channel
