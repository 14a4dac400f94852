import SpscRing.NotifyWord.Protocol

/-! The invariant behind "no lost wakeups": a sleeping waiter is either about to
be notified, or its flag is up and no publication has gone by unnoticed. -/

namespace SpscRing.NotifyWord

open SpscRing.Foundation

variable {Waiter Shared : Type}

def WaiterPc.call : WaiterPc Shared → Option (WaitCall Shared)
  | .idle => none
  | .check call _ | .register call _ | .recheck call _ _ | .deadline call _ _
  | .wait call _ _ | .blocked call _ _ | .clear call _ | .returning call _ => some call

/-- What the word still says about the value a waiter marked: its sequence has
moved by the bumps since, and before the first bump the flag is up. -/
structure Tracks (state : State Waiter Shared) (owner : Waiter) (marked : UInt32) : Prop where
  sequence : state.word.toNat % 2 ^ 31 = (marked.toNat + state.bumps owner) % 2 ^ 31
  flagged : state.bumps owner = 0 → hasWaiter marked = false → hasWaiter state.word = true

/-- The call still has to wait, or the bump of a published change is to come. -/
def Awaits (state : State Waiter Shared) (call : WaitCall Shared) : Prop :=
  call.pred state.shared state.word = true ∨ state.bumper = .published

/-- No wakeup of this waiter can be lost from here. -/
def Covered (state : State Waiter Shared) (self : Waiter) : Prop :=
  match state.waiter self with
  | .recheck _ _ marked => Tracks state self marked
  | .deadline call _ marked | .wait call _ marked =>
    Tracks state self marked ∧ (state.bumps self = 0 → Awaits state call)
  | .blocked call _ _ =>
    state.bumper = .mustNotify ∨ (hasWaiter state.word = true ∧ Awaits state call)
  | _ => True

/-- Another waiter that the cleared word would strand: one asleep that nobody is
about to notify, or one whose platform compare would accept the cleared word. -/
def Exposed (state : State Waiter Shared) (other : Waiter) : Prop :=
  match state.waiter other with
  | .recheck _ _ marked | .deadline _ _ marked | .wait _ _ marked =>
    marked = clearWaiter state.word
  | .blocked .. => state.bumper ≠ .mustNotify
  | _ => False

/-- A waiter about to clear the flag exposes no other waiter. -/
def ClearsSafely (state : State Waiter Shared) (self : Waiter) : Prop :=
  (∃ call result, state.waiter self = .clear call result) →
    ∀ other, other ≠ self → ¬ Exposed state other

/-- The word the step leaves looks the same to the predicates of the others. -/
def LeavesUndisturbed (before : State Waiter Shared) (self : Waiter)
    (after : State Waiter Shared) : Prop :=
  ∀ other, other ≠ self → ∀ call, (before.waiter other).call = some call →
    call.pred before.shared after.word = call.pred before.shared before.word

theorem initial_covered (word : UInt32) (value : Shared) (self : Waiter) :
    Covered (initial word value) self := trivial

variable {before after : State Waiter Shared} {self other : Waiter} {expired : Bool}

/-- A word equal to the marked one after fewer than `2^31` bumps has seen none,
and its flag is up. -/
theorem Tracks.unbumped {state : State Waiter Shared} {marked : UInt32}
    (tracks : Tracks state self marked) (few : state.bumps self < 2 ^ 31)
    (same : state.word = marked) : state.bumps self = 0 ∧ hasWaiter state.word = true := by
  have sequence := tracks.sequence
  rw [same] at sequence
  have none : state.bumps self = 0 := by omega
  refine ⟨none, ?_⟩
  by_contra down
  have markedDown : hasWaiter marked = false := by simpa [same] using down
  exact down (tracks.flagged none markedDown)

theorem Tracks.bump {marked : UInt32} (tracks : Tracks before self marked)
    (word : after.word = before.word + 1) (bumps : after.bumps self = before.bumps self + 1) :
    Tracks after self marked := by
  have sequence := tracks.sequence
  refine ⟨?_, fun none => absurd none (by omega)⟩
  rw [word, bumps, toNat_bump]
  omega

/-- Coverage depends on nothing but the word, the published state, the bumper
and the waiter's own counter and bumps. -/
theorem Covered.congr (covered : Covered before self) (word : after.word = before.word)
    (shared : after.shared = before.shared) (bumper : after.bumper = before.bumper)
    (waiter : after.waiter self = before.waiter self) (bumps : after.bumps self = before.bumps self) :
    Covered after self := by
  have tracks (marked : UInt32) (kept : Tracks before self marked) : Tracks after self marked :=
    ⟨by rw [word, bumps]; exact kept.sequence, by rw [word, bumps]; exact kept.flagged⟩
  unfold Covered at covered ⊢
  rw [waiter]
  cases pc : before.waiter self with
  | idle | check _ _ | register _ _ | clear _ _ | returning _ _ => trivial
  | recheck call registered marked =>
    simp only [pc] at covered
    exact tracks marked covered
  | deadline call registered marked | wait call registered marked =>
    simp only [pc] at covered
    refine ⟨tracks marked covered.1, ?_⟩
    simpa only [Awaits, word, shared, bumper, bumps] using covered.2
  | blocked call registered marked =>
    simp only [pc] at covered
    simpa only [Awaits, word, shared, bumper] using covered

variable [DecidableEq Waiter]

/-- The effect of a waiter's step on everything that is not its own: only the
flag of the word can change, and only a clearing waiter takes it down. -/
theorem waiterStep_frame (taken : waiterStep before self expired = some after) :
    after.shared = before.shared ∧ after.bumper = before.bumper ∧
      (∀ other, other ≠ self → after.waiter other = before.waiter other ∧
        after.bumps other = before.bumps other) ∧
      (after.word = before.word ∨ after.word = setWaiter before.word ∨
        ((∃ call result, before.waiter self = .clear call result) ∧
          after.word = clearWaiter before.word)) := by
  have goto (pc : WaiterPc Shared) (other : Waiter) (different : other ≠ self) :
      (before.goto self pc).waiter other = before.waiter other := by
    simp [State.goto, different]
  unfold waiterStep at taken
  split at taken
  · cases taken
  · cases taken
  · split at taken <;> cases taken <;>
      exact ⟨rfl, rfl, fun other different => ⟨goto _ other different, rfl⟩, .inl rfl⟩
  · cases taken
    refine ⟨rfl, rfl, fun other different => ⟨goto _ other different, ?_⟩, .inr (.inl rfl)⟩
    simp [different]
  · split at taken
    · split at taken <;> cases taken <;>
        exact ⟨rfl, rfl, fun other different => ⟨goto _ other different, rfl⟩, .inl rfl⟩
    · cases taken
      exact ⟨rfl, rfl, fun other different => ⟨goto _ other different, rfl⟩, .inl rfl⟩
  · split at taken <;> cases taken <;>
      exact ⟨rfl, rfl, fun other different => ⟨goto _ other different, rfl⟩, .inl rfl⟩
  · split at taken <;> cases taken <;>
      exact ⟨rfl, rfl, fun other different => ⟨goto _ other different, rfl⟩, .inl rfl⟩
  · rename_i call result clearing
    cases taken
    exact ⟨rfl, rfl, fun other different => ⟨goto _ other different, rfl⟩,
      .inr (.inr ⟨⟨call, result, clearing⟩, rfl⟩)⟩
  · cases taken
    exact ⟨rfl, rfl, fun other different => ⟨goto _ other different, rfl⟩, .inl rfl⟩

/-- What a step does to one waiter: it calls, it takes its own step, or somebody else
leaves it where it is or wakes it. -/
theorem step_waiter_cases {action : Action Waiter Shared} (self : Waiter)
    (taken : step before action = some after) :
    (∃ call, action = .call self call ∧ after.waiter self = .check call false) ∨
    (∃ expired, action = .waiter self expired ∧ waiterStep before self expired = some after) ∨
    ((∀ expired, action ≠ .waiter self expired) ∧
      (after.waiter self = before.waiter self ∨
        after.waiter self = (before.waiter self).woken)) := by
  cases action with
  | call other call =>
    simp only [step] at taken
    split at taken <;> cases taken
    by_cases own : self = other
    · subst own
      exact .inl ⟨call, rfl, by simp [State.goto]⟩
    · exact .inr (.inr ⟨by simp, .inl (by simp [State.goto, own])⟩)
  | waiter other expired =>
    by_cases own : self = other
    · subst own
      exact .inr (.inl ⟨expired, rfl, taken⟩)
    · obtain ⟨-, -, others, -⟩ := waiterStep_frame taken
      exact .inr (.inr ⟨by simp [Ne.symm own], .inl (others self own).1⟩)
  | wake other =>
    simp only [step] at taken
    split at taken <;> cases taken
    rename_i call registered marked asleep
    by_cases own : self = other
    · subst own
      exact .inr (.inr ⟨by simp, .inr (by simp [State.goto, asleep, WaiterPc.woken])⟩)
    · exact .inr (.inr ⟨by simp, .inl (by simp [State.goto, own])⟩)
  | publish value =>
    simp only [step] at taken
    split at taken <;> cases taken
    exact .inr (.inr ⟨by simp, .inl rfl⟩)
  | bump =>
    simp only [step] at taken
    split at taken <;> cases taken
    exact .inr (.inr ⟨by simp, .inl rfl⟩)
  | notify =>
    simp only [step] at taken
    split at taken <;> cases taken
    exact .inr (.inr ⟨by simp, .inr rfl⟩)

/-- Every word a waiter can leave has the same sequence value. -/
theorem waiterStep_sequence (taken : waiterStep before self expired = some after) :
    after.word.toNat % 2 ^ 31 = before.word.toNat % 2 ^ 31 := by
  obtain ⟨-, -, -, same | raised | ⟨-, lowered⟩⟩ := waiterStep_frame taken
  · rw [same]
  · rw [raised, toNat_setWaiter]
    omega
  · rw [lowered, toNat_clearWaiter]
    omega

theorem Tracks.frame {marked : UInt32} (taken : waiterStep before self expired = some after)
    (different : other ≠ self) (tracks : Tracks before other marked)
    (safe : (∃ call result, before.waiter self = .clear call result) →
      marked ≠ clearWaiter before.word) : Tracks after other marked := by
  have sequence := waiterStep_sequence taken
  obtain ⟨-, -, others, word⟩ := waiterStep_frame taken
  have bumps := (others other different).2
  refine ⟨by rw [sequence, bumps]; exact tracks.sequence, ?_⟩
  rw [bumps]
  intro none markedDown
  rcases word with same | raised | ⟨clearing, lowered⟩
  · rw [same]
    exact tracks.flagged none markedDown
  · rw [raised]
    exact hasWaiter_setWaiter _
  · refine absurd ?_ (safe clearing)
    have small := hasWaiter_eq_false.mp markedDown
    have agree := tracks.sequence
    rw [none] at agree
    rw [← UInt32.toNat_inj, toNat_clearWaiter]
    omega

theorem covered_other (taken : waiterStep before self expired = some after)
    (different : other ≠ self) (covered : Covered before other)
    (safe : ClearsSafely before self) (undisturbed : LeavesUndisturbed before self after) :
    Covered after other := by
  obtain ⟨shared, bumper, others, word⟩ := waiterStep_frame taken
  obtain ⟨same, bumps⟩ := others other different
  have exposure (clearing : ∃ call result, before.waiter self = .clear call result) :=
    safe clearing other different
  have awaits (call : WaitCall Shared) (pc : (before.waiter other).call = some call)
      (pending : Awaits before call) : Awaits after call := by
    have view := undisturbed other different call pc
    simpa only [Awaits, shared, bumper, view] using pending
  unfold Covered at covered ⊢
  rw [same]
  cases pc : before.waiter other with
  | idle | check _ _ | register _ _ | clear _ _ | returning _ _ => trivial
  | recheck call registered marked =>
    simp only [pc] at covered
    exact covered.frame taken different fun clearing equal =>
      exposure clearing (by simpa [Exposed, pc] using equal)
  | deadline call registered marked | wait call registered marked =>
    simp only [pc] at covered
    refine ⟨covered.1.frame taken different fun clearing equal =>
      exposure clearing (by simpa [Exposed, pc] using equal), fun none => ?_⟩
    exact awaits call (by simp [pc, WaiterPc.call]) (covered.2 (bumps ▸ none))
  | blocked call registered marked =>
    simp only [pc] at covered
    rcases covered with notifying | ⟨flag, pending⟩
    · exact .inl (bumper.trans notifying)
    · have kept := awaits call (by simp [pc, WaiterPc.call]) pending
      rcases word with unchanged | raised | ⟨clearing, -⟩
      · exact .inr ⟨unchanged ▸ flag, kept⟩
      · exact .inr ⟨raised ▸ hasWaiter_setWaiter _, kept⟩
      · have notifying : before.bumper = .mustNotify := by
          simpa [Exposed, pc] using exposure clearing
        exact .inl (bumper.trans notifying)

theorem covered_leave (state : State Waiter Shared) (call : WaitCall Shared)
    (registered result : Bool) : Covered (state.goto self (leave call registered result)) self := by
  cases registered <;> simp [Covered, State.goto, leave]

theorem covered_own (taken : waiterStep before self expired = some after)
    (covered : Covered before self)
    (few : FewBumps before (.waiter self expired) after) : Covered after self := by
  simp only [FewBumps, fewBumps] at few
  unfold Covered at covered
  unfold waiterStep at taken
  cases pc : before.waiter self with
  | idle => simp [pc] at taken
  | blocked _ _ _ => simp [pc] at taken
  | check call registered =>
    simp only [pc] at taken
    split at taken <;> cases taken
    · simp [Covered, State.goto]
    · exact covered_leave _ _ _ _
  | register call registered =>
    simp only [pc, Option.some.injEq] at taken
    subst taken
    simp only [Covered, State.goto, Function.update_self]
    refine ⟨?_, fun _ _ => hasWaiter_setWaiter _⟩
    simp only [Function.update_self, toNat_setWaiter]
    omega
  | recheck call registered marked =>
    simp only [pc] at taken covered
    split at taken
    · rename_i waiting
      split at taken <;> cases taken
      all_goals
        simp only [Covered, State.goto, Function.update_self]
        exact ⟨⟨covered.sequence, covered.flagged⟩, fun _ => .inl waiting⟩
    · cases taken
      exact covered_leave _ _ _ _
  | deadline call registered marked =>
    simp only [pc] at taken covered
    split at taken <;> cases taken
    · exact covered_leave _ _ _ _
    · simp only [Covered, State.goto, Function.update_self]
      exact ⟨⟨covered.1.sequence, covered.1.flagged⟩, covered.2⟩
  | wait call registered marked =>
    simp only [pc, decide_eq_true_eq] at taken covered few
    split at taken <;> cases taken
    · rename_i same
      obtain ⟨none, flag⟩ := covered.1.unbumped few same
      simp only [Covered, State.goto, Function.update_self]
      exact .inr ⟨flag, covered.2 none⟩
    · simp [Covered, State.goto]
  | clear call result =>
    simp only [pc, Option.some.injEq] at taken
    subst taken
    simp [Covered, State.goto]
  | returning call result =>
    simp only [pc, Option.some.injEq] at taken
    subst taken
    simp [Covered, State.goto]

theorem covered_publish {value : Shared} (taken : step before (.publish value) = some after)
    (covered : Covered before self) : Covered after self := by
  simp only [step] at taken
  split at taken
  · rename_i resting
    cases taken
    unfold Covered at covered ⊢
    cases pc : before.waiter self with
    | idle | check _ _ | register _ _ | clear _ _ | returning _ _ => trivial
    | recheck call registered marked =>
      simp only [pc] at covered
      exact ⟨covered.sequence, covered.flagged⟩
    | deadline call registered marked | wait call registered marked =>
      simp only [pc] at covered
      exact ⟨⟨covered.1.sequence, covered.1.flagged⟩, fun _ => .inr rfl⟩
    | blocked call registered marked =>
      simp only [pc, resting, reduceCtorEq, false_or] at covered
      exact .inr ⟨covered.1, .inr rfl⟩
  · cases taken

theorem covered_bump (taken : step before .bump = some after) (covered : Covered before self) :
    Covered after self := by
  simp only [step, bumpNotifyWord] at taken
  split at taken
  · rename_i publishing
    cases taken
    unfold Covered at covered ⊢
    cases pc : before.waiter self with
    | idle | check _ _ | register _ _ | clear _ _ | returning _ _ => trivial
    | recheck call registered marked =>
      simp only [pc] at covered
      exact covered.bump rfl rfl
    | deadline call registered marked | wait call registered marked =>
      simp only [pc] at covered
      exact ⟨covered.1.bump rfl rfl, fun none => absurd none (by simp)⟩
    | blocked call registered marked =>
      simp only [pc, publishing, reduceCtorEq, false_or] at covered
      exact .inl (by simp [covered.1])
  · cases taken

theorem covered_notify (taken : step before .notify = some after) (covered : Covered before self) :
    Covered after self := by
  simp only [step] at taken
  split at taken
  · rename_i notifying
    cases taken
    unfold Covered at covered ⊢
    cases pc : before.waiter self with
    | idle | check _ _ | register _ _ | clear _ _ | returning _ _ | blocked _ _ _ =>
      simp [pc, WaiterPc.woken]
    | recheck call registered marked =>
      simp only [pc] at covered
      simp only [pc, WaiterPc.woken]
      exact ⟨covered.sequence, covered.flagged⟩
    | deadline call registered marked | wait call registered marked =>
      simp only [pc, Awaits, notifying, reduceCtorEq, or_false] at covered
      simp only [pc, WaiterPc.woken]
      exact ⟨⟨covered.1.sequence, covered.1.flagged⟩, fun none => .inl (covered.2 none)⟩
  · cases taken

/-- One step keeps every waiter covered, as long as a waiter that takes the
flag down exposes nobody else and no predicate is turned by a flag change. -/
theorem covered_step {action : Action Waiter Shared} (covered : ∀ waiter, Covered before waiter)
    (few : FewBumps before action after)
    (discipline : ∀ self expired, action = .waiter self expired →
      ClearsSafely before self ∧ LeavesUndisturbed before self after)
    (taken : step before action = some after) (waiter : Waiter) : Covered after waiter := by
  cases action with
  | call self call =>
    simp only [step] at taken
    split at taken
    · cases taken
      by_cases same : waiter = self
      · simp [Covered, State.goto, same]
      · exact (covered waiter).congr rfl rfl rfl (by simp [State.goto, same]) rfl
    · cases taken
  | waiter self expired =>
    obtain ⟨safe, undisturbed⟩ := discipline self expired rfl
    by_cases same : waiter = self
    · subst same
      exact covered_own taken (covered waiter) few
    · exact covered_other taken same (covered waiter) safe undisturbed
  | wake self =>
    simp only [step] at taken
    split at taken
    · cases taken
      by_cases same : waiter = self
      · simp [Covered, State.goto, same]
      · exact (covered waiter).congr rfl rfl rfl (by simp [State.goto, same]) rfl
    · cases taken
  | publish value => exact covered_publish taken (covered waiter)
  | bump => exact covered_bump taken (covered waiter)
  | notify => exact covered_notify taken (covered waiter)

omit [DecidableEq Waiter] in
theorem Covered.not_lost {state : State Waiter Shared} (covered : Covered state self) :
    ¬ LostWakeup state self := by
  rintro ⟨call, registered, marked, asleep, progress, resting⟩
  simp [Covered, asleep, Awaits, progress, resting] at covered

/-- With a single waiter, no interleaving with the bumper loses a wakeup, from
any initial word and through every wrap of the counter. -/
theorem no_lost_wakeup (word : UInt32) (value : Shared) {state : State Unit Shared}
    (reached : (machine Unit Shared).Reachable FewBumps (initial word value) state) :
    ¬ LostWakeup state () := by
  have covered : ∀ waiter, Covered state waiter := by
    refine reached.invariant (fun state => ∀ waiter, Covered state waiter)
      (initial_covered word value) ?_
    intro before action after covered few taken
    refine covered_step covered few (fun self expired _ => ⟨?_, ?_⟩) taken
    · exact fun _ other different => absurd rfl different
    · exact fun other different => absurd rfl different
  exact (covered ()).not_lost

/-- The waiter sleeps on a word that already carried the flag, and the bumper
has published but not yet bumped. -/
theorem no_lost_wakeup_asleep : ∃ state : State Unit Bool,
    (machine Unit Bool).Reachable FewBumps (initial 0xFFFFFFFF false) state ∧
      (∃ call registered marked, state.waiter () = .blocked call registered marked ∧
        call.pred state.shared state.word = false) ∧ ¬ LostWakeup state () := by
  let call : WaitCall Bool := { pred := fun progress _ => !progress }
  obtain ⟨state, run, asleep⟩ := (machine Unit Bool).run_of_replay FewBumps
    (initial 0xFFFFFFFF false)
    [.call () call, .waiter () false, .waiter () false, .waiter () false, .waiter () false,
      .publish true]
    (fun state => (state.waiter ()).blockedCall.any fun call =>
      !call.pred state.shared state.word) (by decide)
  obtain ⟨call, sleeping, ready⟩ := (Option.any_eq_true _ _).mp asleep
  obtain ⟨registered, marked, blocked⟩ := WaiterPc.blockedCall_eq_some.mp sleeping
  exact ⟨state, ⟨_, run⟩, ⟨call, registered, marked, blocked, by simpa using ready⟩,
    no_lost_wakeup _ _ ⟨_, run⟩⟩

end SpscRing.NotifyWord
