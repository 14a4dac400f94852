import SpscRing.Foundation.Refinement
import SpscRing.NotifyWord.Registrars

/-! The wake sequence counts bumps. Waiters set and clear the flag next to it and
carries run through the flag, but the low 31 bits only ever move by the bumps, so a
wait for a changed sequence ends only where their number shows. -/

namespace SpscRing.NotifyWord

open SpscRing.Foundation

variable {Waiter Shared : Type}

/-- The wait `wait_for_seq_change` makes. -/
def waitForSeqChange (lastSeen : UInt32) : WaitCall Shared where
  pred _ word := notifySeqValue word == notifySeqValue lastSeen

/-- The same with a timeout, `wait_for_seq_change_for`. -/
def waitForSeqChangeFor (lastSeen : UInt32) (timeoutMs : Int) : WaitCall Shared :=
  { waitForSeqChange lastSeen with timeoutMs := some timeoutMs }

/-- Beside the parties of the protocol, anyone may call `bump_notify_word` at any
time. -/
inductive CrowdAction (Waiter Shared : Type) where
  | party (action : Action Waiter Shared)
  | bump

def CrowdAction.isBump : CrowdAction Waiter Shared → Bool
  | .bump | .party .bump => true
  | _ => false

def bumpsIn (actions : List (CrowdAction Waiter Shared)) : Nat := actions.countP CrowdAction.isBump

/-- The waiter is inside the loop of this call. -/
def WaiterPc.looping : WaiterPc Shared → Option (WaitCall Shared)
  | .check call _ | .register call _ | .recheck call _ _ | .deadline call _ _ | .wait call _ _
  | .blocked call _ _ => some call
  | .idle | .clear _ _ | .returning _ _ => none

/-- The waiter has left the loop and will return this result. -/
def WaiterPc.leaving : WaiterPc Shared → Option (WaitCall Shared × Bool)
  | .clear call result | .returning call result => some (call, result)
  | _ => none

/-- The next step evaluates the predicate. -/
def WaiterPc.evaluates : WaiterPc Shared → Bool
  | .check _ _ | .recheck _ _ _ => true
  | _ => false

variable [DecidableEq Waiter]

def crowdStep (state : State Waiter Shared) :
    CrowdAction Waiter Shared → Option (State Waiter Shared)
  | .party action => step state action
  | .bump => some { state with
      word := (bumpNotifyWord state.word).1
      bumps := fun waiter => state.bumps waiter + 1
      carried := fun waiter => state.carried waiter || carries state.word }

variable (Waiter Shared) in
def crowd : Machine (State Waiter Shared) (CrowdAction Waiter Shared) := ⟨crowdStep⟩

/-- The words a waiter's predicate loads. -/
def loadBy (self : Waiter) (state : State Waiter Shared) : CrowdAction Waiter Shared → List UInt32
  | .party (.waiter other _) =>
    if other = self ∧ (state.waiter self).evaluates = true then [state.word] else []
  | _ => []

/-- The load that follows the first actions of a run is the waiter's last one in it. -/
structure FinalLoad (waiter : Waiter) (start : State Waiter Shared)
    (actions earlier : List (CrowdAction Waiter Shared)) (load : State Waiter Shared) : Prop where
  reached : (crowd Waiter Shared).Run Machine.Always start earlier load
  final : ∃ action later, actions = earlier ++ action :: later ∧
    loadBy waiter load action = [load.word] ∧
    (crowd Waiter Shared).trace (loadBy waiter) load (action :: later) = [load.word]

/-- From a snapshot of the word on, the sequence has moved by the number of bumps,
and a wait for a change from it returns only where that number is no multiple of the
sequence's range. -/
structure CountsBumps (snapshot : State Waiter Shared) : Prop where
  sequence : ∀ actions state, (crowd Waiter Shared).Run Machine.Always snapshot actions state →
    (notifySeqValue state.word).toNat =
      ((notifySeqValue snapshot.word).toNat + bumpsIn actions) % 2 ^ 31
  returns : ∀ self lastSeen call before entry called actions state result,
    notifySeqValue lastSeen = notifySeqValue snapshot.word →
    (call = waitForSeqChange lastSeen ∨
      (∃ timeoutMs, call = waitForSeqChangeFor lastSeen timeoutMs) ∧ result = true) →
    (crowd Waiter Shared).Run Machine.Always snapshot before entry →
    crowdStep entry (.party (.call self call)) = some called →
    (crowd Waiter Shared).Run Machine.Always called actions state →
    (∀ again, .party (.call self again) ∉ actions) →
    state.waiter self = .returning call result →
    ∃ earlier load, FinalLoad self called actions earlier load ∧
      ¬ 2 ^ 31 ∣ bumpsIn before + bumpsIn earlier

variable {before after : State Waiter Shared} {self : Waiter} {action : CrowdAction Waiter Shared}
variable {actions : List (CrowdAction Waiter Shared)} {call : WaitCall Shared} {result : Bool}

omit [DecidableEq Waiter] in
theorem bumpsIn_append (actions more : List (CrowdAction Waiter Shared)) :
    bumpsIn (actions ++ more) = bumpsIn actions + bumpsIn more := List.countP_append

/-- A bump moves the sequence by one, also where it carries into the flag or wraps the word. -/
theorem bump_sequence (word : UInt32) : (word + 1).toNat % 2 ^ 31 = (word.toNat + 1) % 2 ^ 31 := by
  rw [toNat_bump]
  omega

/-- A step moves the sequence by one if it is a bump and leaves it otherwise. -/
theorem crowdStep_sequence (taken : crowdStep before action = some after) :
    after.word.toNat % 2 ^ 31 = (before.word.toNat + bumpsIn [action]) % 2 ^ 31 := by
  cases action with
  | bump =>
    cases taken
    exact bump_sequence before.word
  | party action =>
    cases action with
    | call other call =>
      simp only [crowdStep, step] at taken
      split at taken <;> cases taken
      rfl
    | waiter other expired => exact waiterStep_sequence taken
    | wake other =>
      simp only [crowdStep, step] at taken
      split at taken <;> cases taken
      rfl
    | publish value =>
      simp only [crowdStep, step] at taken
      split at taken <;> cases taken
      rfl
    | bump =>
      simp only [crowdStep, step, bumpNotifyWord] at taken
      split at taken <;> cases taken
      exact bump_sequence before.word
    | notify =>
      simp only [crowdStep, step] at taken
      split at taken <;> cases taken
      rfl

theorem run_sequence (run : (crowd Waiter Shared).Run Machine.Always before actions after) :
    after.word.toNat % 2 ^ 31 = (before.word.toNat + bumpsIn actions) % 2 ^ 31 := by
  induction run with
  | done _ => rfl
  | next taken _ _ ih =>
    have first := crowdStep_sequence taken
    simp only [bumpsIn, List.countP_cons, List.countP_nil] at first ih ⊢
    omega

/-- Whether a step of the waiter shows a load depends on where the waiter is. -/
theorem loadBy_own (self : Waiter) (state : State Waiter Shared) (expired : Bool) :
    loadBy self state (.party (.waiter self expired)) =
      if (state.waiter self).evaluates then [state.word] else [] := by
  simp only [loadBy, true_and]

/-- Nobody else's step loads for the waiter. -/
theorem loadBy_other {action : Action Waiter Shared}
    (other : ∀ expired, action ≠ .waiter self expired) : loadBy self before (.party action) = [] := by
  cases action with
  | waiter mover expired =>
    have different : mover ≠ self := by
      rintro rfl
      exact other expired rfl
    simp [loadBy, different]
  | call _ _ | wake _ | publish _ | bump | notify => rfl

/-- What a step that is no new call does to a waiter, unless it is the waiter's own:
nothing, or it wakes it. -/
theorem crowdStep_cases (self : Waiter) (taken : crowdStep before action = some after)
    (same : ∀ again, action ≠ .party (.call self again)) :
    (∃ expired, action = .party (.waiter self expired) ∧
      waiterStep before self expired = some after) ∨
    (loadBy self before action = [] ∧ (after.waiter self = before.waiter self ∨
      after.waiter self = (before.waiter self).woken)) := by
  cases action with
  | bump =>
    cases taken
    exact .inr ⟨rfl, .inl rfl⟩
  | party action =>
    obtain ⟨call, rfl, -⟩ | ⟨expired, rfl, stepped⟩ | ⟨other, effect⟩ := step_waiter_cases self taken
    · exact absurd rfl (same call)
    · exact .inl ⟨expired, rfl, stepped⟩
    · exact .inr ⟨loadBy_other other, effect⟩

omit [DecidableEq Waiter] in
theorem looping_woken (pc : WaiterPc Shared) : pc.woken.looping = pc.looping := by
  cases pc <;> rfl

omit [DecidableEq Waiter] in
theorem leaving_woken (pc : WaiterPc Shared) : pc.woken.leaving = pc.leaving := by
  cases pc <;> rfl

omit [DecidableEq Waiter] in
theorem looping_leave (call : WaitCall Shared) (registered result : Bool) :
    (leave call registered result).looping = none := by
  cases registered <;> rfl

omit [DecidableEq Waiter] in
theorem leaving_leave (call : WaitCall Shared) (registered result : Bool) :
    (leave call registered result).leaving = some (call, result) := by
  cases registered <;> rfl

/-- In the loop of a call, and at its deadline only if it has one. -/
structure InLoop (pc : WaiterPc Shared) (call : WaitCall Shared) : Prop where
  looping : pc.looping = some call
  timed : ∀ registered marked, pc = .deadline call registered marked → call.hasDeadline = true

omit [DecidableEq Waiter] in
theorem InLoop.woken {pc : WaiterPc Shared} (inside : InLoop pc call) : InLoop pc.woken call where
  looping := (looping_woken pc).trans inside.looping
  timed := by
    cases pc with
    | blocked _ _ _ => simp [WaiterPc.woken]
    | _ => exact inside.timed

/-- A waiter's step in the loop stays there, leaves at a load that turns the predicate
false, or leaves at the deadline. -/
theorem waiterStep_looping {expired : Bool} (taken : waiterStep before self expired = some after)
    (inside : InLoop (before.waiter self) call) :
    InLoop (after.waiter self) call ∨
    ((before.waiter self).evaluates = true ∧ call.pred before.shared before.word = false ∧
      (after.waiter self).looping = none ∧ (after.waiter self).leaving = some (call, true)) ∨
    (call.hasDeadline = true ∧ (after.waiter self).looping = none ∧
      (after.waiter self).leaving = some (call, false)) := by
  obtain ⟨looping, timed⟩ := inside
  unfold waiterStep at taken
  cases pc : before.waiter self with
  | idle | clear _ _ | returning _ _ => simp [pc, WaiterPc.looping] at looping
  | blocked _ _ _ => simp [pc] at taken
  | check mine registered =>
    obtain rfl : mine = call := by simpa [pc, WaiterPc.looping] using looping
    simp only [pc] at taken
    split at taken <;> cases taken <;> rw [waiter_goto]
    · exact .inl ⟨rfl, by simp⟩
    · rename_i ready
      exact .inr (.inl ⟨rfl, by simpa using ready, looping_leave _ _ _, leaving_leave _ _ _⟩)
  | register mine registered =>
    obtain rfl : mine = call := by simpa [pc, WaiterPc.looping] using looping
    simp only [pc, Option.some.injEq] at taken
    subst taken
    exact .inl ⟨by simp [State.goto, WaiterPc.looping], by simp [State.goto]⟩
  | recheck mine registered marked =>
    obtain rfl : mine = call := by simpa [pc, WaiterPc.looping] using looping
    simp only [pc] at taken
    split at taken
    · split at taken <;> cases taken <;> rw [waiter_goto]
      · rename_i deadline
        exact .inl ⟨rfl, fun _ _ _ => deadline⟩
      · exact .inl ⟨rfl, by simp⟩
    · rename_i ready
      cases taken
      rw [waiter_goto]
      exact .inr (.inl ⟨rfl, by simpa using ready, looping_leave _ _ _, leaving_leave _ _ _⟩)
  | deadline mine registered marked =>
    obtain rfl : mine = call := by simpa [pc, WaiterPc.looping] using looping
    simp only [pc] at taken
    split at taken <;> cases taken <;> rw [waiter_goto]
    · exact .inr (.inr ⟨timed registered marked pc, looping_leave _ _ _, leaving_leave _ _ _⟩)
    · exact .inl ⟨rfl, by simp⟩
  | wait mine registered marked =>
    obtain rfl : mine = call := by simpa [pc, WaiterPc.looping] using looping
    simp only [pc] at taken
    split at taken <;> cases taken <;> rw [waiter_goto]
    · exact .inl ⟨rfl, by simp⟩
    · exact .inl ⟨rfl, by simp⟩

/-- Outside the loop a waiter's step loads nothing and keeps the result. -/
theorem waiterStep_left {expired : Bool} (taken : waiterStep before self expired = some after)
    (left : (before.waiter self).looping = none) :
    (before.waiter self).evaluates = false ∧ (after.waiter self).looping = none ∧
      ∀ ending, (after.waiter self).leaving = some ending →
        (before.waiter self).leaving = some ending := by
  unfold waiterStep at taken
  cases pc : before.waiter self with
  | check _ _ | register _ _ | recheck _ _ _ | deadline _ _ _ | wait _ _ _ | blocked _ _ _ =>
    simp [pc, WaiterPc.looping] at left
  | idle => simp [pc] at taken
  | clear call result =>
    simp only [pc, Option.some.injEq] at taken
    subst taken
    simp [State.goto, WaiterPc.looping, WaiterPc.leaving, WaiterPc.evaluates]
  | returning call result =>
    simp only [pc, Option.some.injEq] at taken
    subst taken
    simp [State.goto, WaiterPc.looping, WaiterPc.leaving, WaiterPc.evaluates]

theorem crowdStep_left (taken : crowdStep before action = some after)
    (same : ∀ again, action ≠ .party (.call self again))
    (left : (before.waiter self).looping = none) :
    loadBy self before action = [] ∧ (after.waiter self).looping = none ∧
      ∀ ending, (after.waiter self).leaving = some ending →
        (before.waiter self).leaving = some ending := by
  obtain ⟨expired, rfl, stepped⟩ | ⟨quiet, kept | woken⟩ := crowdStep_cases self taken same
  · obtain ⟨idle, after⟩ := waiterStep_left stepped left
    exact ⟨by rw [loadBy_own, idle]; rfl, after⟩
  · rw [kept]
    exact ⟨quiet, left, fun _ same => same⟩
  · rw [woken, looping_woken, leaving_woken]
    exact ⟨quiet, left, fun _ same => same⟩

/-- Once out of the loop, a waiter loads nothing more before its next call. -/
theorem run_left (run : (crowd Waiter Shared).Run Machine.Always before actions after)
    (same : ∀ again, .party (.call self again) ∉ actions)
    (left : (before.waiter self).looping = none) :
    (crowd Waiter Shared).trace (loadBy self) before actions = [] ∧
      ∀ ending, (after.waiter self).leaving = some ending →
        (before.waiter self).leaving = some ending := by
  induction run with
  | done _ => exact ⟨rfl, fun _ same => same⟩
  | next taken _ _ ih =>
    obtain ⟨quiet, still, kept⟩ := crowdStep_left taken
      (fun again equal => same again (by simp [equal])) left
    obtain ⟨silent, ending⟩ := ih (fun again later => same again (by simp [later])) still
    refine ⟨?_, fun result shown => kept result (ending result shown)⟩
    simp only [Machine.trace, taken, quiet, silent, List.append_nil]

/-- A call that leaves its loop does so after a load that turned its predicate false,
its last one, unless it timed out. -/
theorem run_looping (run : (crowd Waiter Shared).Run Machine.Always before actions after)
    (same : ∀ again, .party (.call self again) ∉ actions)
    (inside : InLoop (before.waiter self) call)
    (ended : (after.waiter self).leaving = some (call, result)) :
    (∃ earlier load, FinalLoad self before actions earlier load ∧
      call.pred load.shared load.word = false) ∨ call.hasDeadline = true ∧ result = false := by
  induction run with
  | done state =>
    have looping := inside.looping
    cases pc : state.waiter self <;> simp [pc, WaiterPc.looping, WaiterPc.leaving] at looping ended
  | @next first next last action rest taken _ run ih =>
    have later : ∀ again, .party (.call self again) ∉ rest := fun again member =>
      same again (by simp [member])
    have onward (stays : InLoop (next.waiter self) call) :
        (∃ earlier load, FinalLoad self first (action :: rest) earlier load ∧
          call.pred load.shared load.word = false) ∨ call.hasDeadline = true ∧ result = false := by
      rcases ih later stays ended with ⟨earlier, load, final, ready⟩ | timedOut
      · obtain ⟨reached, shown, remaining, split, evaluated⟩ := final
        exact .inl ⟨action :: earlier, load, ⟨.next taken trivial reached, shown, remaining,
          by rw [split]; rfl, evaluated⟩, ready⟩
      · exact .inr timedOut
    obtain ⟨expired, rfl, stepped⟩ | ⟨-, kept | woken⟩ := crowdStep_cases self taken
      (fun again equal => same again (by simp [equal]))
    · rcases waiterStep_looping stepped inside with stays | ⟨evaluates, ready, out, leaving⟩ |
        ⟨timed, out, leaving⟩
      · exact onward stays
      · obtain ⟨silent, -⟩ := run_left run later out
        have shown : loadBy self first (.party (.waiter self expired)) = [first.word] := by
          rw [loadBy_own, evaluates]
          rfl
        refine .inl ⟨[], first, ⟨.done _, _, rest, rfl, shown, ?_⟩, ready⟩
        simp only [Machine.trace, taken, shown, silent, List.append_nil]
      · obtain ⟨-, kept⟩ := run_left run later out
        have given := (kept _ ended).symm.trans leaving
        exact .inr ⟨timed, by simpa using given⟩
    · exact onward (kept ▸ inside)
    · exact onward (woken ▸ inside.woken)

/-- A called waiter begins in the loop. -/
theorem crowdStep_call (begun : crowdStep before (.party (.call self call)) = some after) :
    InLoop (after.waiter self) call := by
  simp only [crowdStep, step] at begun
  split at begun <;> cases begun
  exact ⟨by simp [State.goto, WaiterPc.looping], by simp [State.goto]⟩

/-- The predicate of both waits turns false only at another sequence value. -/
theorem differs_of_ready {lastSeen word : UInt32} {shared : Shared}
    (ready : (waitForSeqChange lastSeen).pred shared word = false) :
    word.toNat % 2 ^ 31 ≠ lastSeen.toNat % 2 ^ 31 := by
  simp only [waitForSeqChange, beq_eq_false_iff_ne, ne_eq, ← UInt32.toNat_inj,
    toNat_notifySeqValue] at ready
  exact ready

/-- From any snapshot on, under any interleaving of waiters and bumpers. -/
theorem sequence_counts_bumps (snapshot : State Waiter Shared) : CountsBumps snapshot where
  sequence actions state run := by
    rw [toNat_notifySeqValue, toNat_notifySeqValue, run_sequence run]
    omega
  returns self lastSeen call before entry called actions state result seen which reached begun
      run same ended := by
    have leaving : (state.waiter self).leaving = some (call, result) := by
      rw [ended]
      rfl
    have final := run_looping run same (crowdStep_call begun) leaving
    have predicate : call.pred = (waitForSeqChange lastSeen).pred := by
      rcases which with rfl | ⟨⟨timeoutMs, rfl⟩, -⟩ <;> rfl
    have loaded : ∃ earlier load, FinalLoad self called actions earlier load ∧
        call.pred load.shared load.word = false := by
      rcases final with found | ⟨timed, late⟩
      · exact found
      · rcases which with rfl | ⟨-, progress⟩
        · cases timed
        · exact absurd (late.symm.trans progress) (by decide)
    obtain ⟨earlier, load, final, ready⟩ := loaded
    refine ⟨earlier, load, final, fun multiple => ?_⟩
    have entered : (crowd Waiter Shared).Run Machine.Always entry
        (.party (.call self call) :: earlier) load := .next begun trivial final.reached
    have whole := run_sequence (reached.append entered)
    have snapped := congrArg UInt32.toNat seen
    have differs := differs_of_ready (predicate ▸ ready)
    rw [toNat_notifySeqValue, toNat_notifySeqValue] at snapped
    have call : bumpsIn (.party (.call self call) :: earlier) = bumpsIn earlier := rfl
    rw [bumpsIn_append, call] at whole
    omega

/-- The snapshot lacks the flag that the word carries, and the bump that ends the wait
wraps the word to zero. -/
theorem sequence_counts_bumps_wrapped : ∃ (called state : State Bool Unit)
    (actions earlier : List (CrowdAction Bool Unit)) (load : State Bool Unit),
    crowdStep (initial 0xFFFFFFFF ()) (.party (.call false (waitForSeqChange 0x7FFFFFFF))) =
      some called ∧
    (crowd Bool Unit).Run Machine.Always called actions state ∧ state.word = 0 ∧
    state.waiter false = .returning (waitForSeqChange 0x7FFFFFFF) true ∧
    FinalLoad false called actions earlier load ∧ ¬ 2 ^ 31 ∣ bumpsIn earlier := by
  let actions : List (CrowdAction Bool Unit) :=
    [.party (.waiter false false), .party (.waiter false false), .bump,
      .party (.waiter false false)]
  obtain ⟨called, begun⟩ : ∃ called : State Bool Unit, crowdStep (initial 0xFFFFFFFF ())
      (.party (.call false (waitForSeqChange 0x7FFFFFFF))) = some called := ⟨_, rfl⟩
  obtain ⟨state, run, wrapped, returning⟩ : ∃ state : State Bool Unit,
      (crowd Bool Unit).Run Machine.Always called actions state ∧ state.word = 0 ∧
        state.waiter false = .returning (waitForSeqChange 0x7FFFFFFF) true := by
    cases begun
    exact ⟨_, .next rfl trivial (.next rfl trivial (.next rfl trivial (.next rfl trivial
      (.done _)))), rfl, rfl⟩
  obtain ⟨earlier, load, final, differs⟩ := (sequence_counts_bumps (initial 0xFFFFFFFF ())).returns
    false 0x7FFFFFFF _ [] _ called actions state true (by decide) (.inl rfl) (.done _) begun run
    (by simp [actions]) returning
  exact ⟨called, state, actions, earlier, load, begun, run, wrapped, returning, final,
    by simpa [bumpsIn] using differs⟩

end SpscRing.NotifyWord
