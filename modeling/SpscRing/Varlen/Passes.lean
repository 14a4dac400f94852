import SpscRing.Foundation.Refinement
import SpscRing.Varlen.SlotSize

/-! The retry loop of `try_reserve` beside a stepping consumer. A pass that pads
leaves the head at index 0, where the size check made before the loop rules out
a second padding; with one producer no compare-exchange fails. -/

namespace SpscRing.Varlen

open SpscRing.Foundation

/-- How a pass of the loop ends: it pads and goes round, it returns, or its
compare-exchange fails. -/
inductive PassEnd where
  | padded
  | full
  | reserved
  | retried
  deriving DecidableEq

/-- A pass begins with the head it looks at. -/
inductive PassEvent where
  | begun (head : UInt64)
  | ended (ending : PassEnd)
  deriving DecidableEq

def pass (head : UInt64) (ending : PassEnd) : List PassEvent := [.begun head, .ended ending]

/-- Between passes, inside one, or out of the loop with what the call returns. -/
inductive Stage where
  | between (head : UInt64)
  | within (head : UInt64)
  | finished (status : Option ReserveStatus)

section Definitions

variable (block : ControlBlock)

/-- The begin and end of passes, as the writer's steps show them. -/
def observePass (state : State) : Action → List PassEvent
  | .writer =>
    match state.writerPc with
    | .loadRead call head =>
      if head - state.readPos + (neededFor block call.payloadSize).toUInt64 > block.dataCapacity then
        pass head .full
      else [.begun head]
    | .casPad _ head => if state.writePos = head then [] else [.ended .retried]
    | .publishPad _ _ => [.ended .padded]
    | .casSlot _ head => if state.writePos = head then [.ended .reserved] else [.ended .retried]
    | _ => []
  | _ => []

/-- The loop as it is meant: a padding leads from a head inside the ring to the
next lap, everything else returns. -/
def loop : Machine Stage PassEvent where
  step
    | .between head, .begun other => if other = head then some (.within head) else none
    | .within head, .ended .padded =>
      if indexOf block head = 0 then none else some (.between (head + wrapPadding block head))
    | .within _, .ended .full => some (.finished (some .full))
    | .within _, .ended .reserved => some (.finished (some .ok))
    | _, _ => none

/-- The last pass of a call and the status it returns. -/
inductive LastPass (head : UInt64) : List PassEvent → ReserveStatus → Prop where
  | full : LastPass head (pass head .full) .full
  | reserved : LastPass head (pass head .reserved) .ok

/-- The passes of a whole call: the last one, or one that pads and then the last
one, from index 0. -/
inductive TwoPasses (head : UInt64) : List PassEvent → ReserveStatus → Prop where
  | one {events : List PassEvent} {status : ReserveStatus} (last : LastPass head events status) :
      TwoPasses head events status
  | two {events : List PassEvent} {status : ReserveStatus}
      (start : indexOf block (head + wrapPadding block head) = 0)
      (last : LastPass (head + wrapPadding block head) events status) :
      TwoPasses head (pass head .padded ++ events) status

/-- In a pass that is about to look at `read_pos`, neither the bytes needed nor the
padding overflow. -/
structure PassExact (state : State) (call : ReserveCall) (head : UInt64) : Prop where
  ordered : state.readPos.toNat ≤ head.toNat
  used : head.toNat - state.readPos.toNat + (neededFor block call.payloadSize).toNat < 2 ^ 64
  padding : head.toNat + (wrapPadding block head).toNat < 2 ^ 64

/-- What holds of a call from the state it has begun in to any state it gets to:
its passes so far are the first ones of at most two, all of them once it has returned,
it takes at most 13 steps and can always take the next one, and no compare-exchange
of it fails. -/
structure ReserveBounded (called : State) (actions : List Action) (state : State) : Prop where
  passes : ∃ whole status, TwoPasses block called.writePos whole status ∧
    (machine block).trace (observePass block) called actions <+: whole ∧
    (called.writerPc ≠ .idle → state.writerPc = .idle →
      (machine block).trace (observePass block) called actions = whole ∧
      ∃ result, state.returned = some result ∧ result.status = status)
  steps : actions.countP Action.isWriter ≤ 13
  enabled : state.writerPc ≠ .idle → ∃ next, step block state .writer = some next
  padSwap : ∀ call head, state.writerPc = .casPad call head → state.writePos = head
  slotSwap : ∀ call head, state.writerPc = .casSlot call head → state.writePos = head
  exact : ∀ call head, state.writerPc = .loadRead call head → PassExact block state call head
  bounded : state.writePos.toNat ≤ state.readPos.toNat + block.dataCapacity.toNat

/-- The steps a call can still take. -/
def WriterPc.stepsLeft : WriterPc → Nat
  | .loadHead _ => 13
  | .loadRead _ head => if indexOf block head = 0 then 7 else 12
  | .casPad _ _ => 11
  | .writePad _ _ => 10
  | .publishPad _ _ => 9
  | .bumpPad _ _ => 8
  | .casSlot _ _ => 6
  | .writeSlot _ _ => 5
  | .copyPayload _ _ _ => 4
  | .readSlotSize _ => 3
  | .publishSlot _ _ => 2
  | .bumpSlot => 1
  | .idle => 0

def State.stage (state : State) : Stage :=
  match state.writerPc with
  | .loadHead _ => .between state.writePos
  | .loadRead _ head | .bumpPad _ head => .between head
  | .casPad _ head | .writePad _ head | .publishPad _ head | .casSlot _ head => .within head
  | .writeSlot _ _ => .finished (some .ok)
  | .copyPayload _ _ _ | .readSlotSize _ | .publishSlot _ _ | .bumpSlot | .idle =>
    .finished (state.returned.map ReserveResult.status)

/-- The invariant of a call entered in some state: every step left moves the front by
at most `2^32`, and a padding that has been published ended at index 0. -/
structure Passing (entry state : State) : Prop where
  inv : ∃ slots, Inv block state slots
  budget : state.writePos.toNat + state.writerPc.stepsLeft block * 2 ^ 32 ≤
    entry.writePos.toNat + 13 * 2 ^ 32
  padEnd : ∀ call head, state.writerPc = .bumpPad call head → indexOf block head = 0

/-- What a writer's step does in a call. -/
structure PassStep (before after : State) : Prop where
  uses : after.writerPc.stepsLeft block + 1 ≤ before.writerPc.stepsLeft block
  moves : after.writePos.toNat ≤ before.writePos.toNat + 2 ^ 32
  padEnd : ∀ call head, after.writerPc = .bumpPad call head → indexOf block head = 0
  stage : (loop block).Run Machine.Always before.stage (observePass block before .writer) after.stage

end Definitions

variable {block : ControlBlock} {before after state : State} {slots : List Slot}
variable {call : ReserveCall} {head : UInt64}

section WriterStep

theorem stepsLeft_of_past {pc : WriterPc} (past : pc.PastReserve) : pc.stepsLeft block ≤ 4 := by
  cases pc with
  | idle | copyPayload _ _ _ | readSlotSize _ | publishSlot _ _ | bumpSlot =>
    simp [WriterPc.stepsLeft]
  | loadHead _ | loadRead _ _ | casPad _ _ | writePad _ _ | publishPad _ _ | bumpPad _ _
  | casSlot _ _ | writeSlot _ _ => exact past.elim

theorem stage_of_past {pc : WriterPc} (past : pc.PastReserve) (state : State) :
    { state with writerPc := pc }.stage =
      .finished (state.returned.map ReserveResult.status) := by
  cases pc with
  | idle | copyPayload _ _ _ | readSlotSize _ | publishSlot _ _ | bumpSlot => rfl
  | loadHead _ | loadRead _ _ | casPad _ _ | writePad _ _ | publishPad _ _ | bumpPad _ _
  | casSlot _ _ | writeSlot _ _ => exact past.elim

/-- The copy is made once. -/
theorem stepsLeft_afterCopy (block : ControlBlock) (state : State) (call : ReserveCall)
    (head : UInt64) : (state.afterCopy call head).writerPc.stepsLeft block ≤ 3 := by
  unfold State.afterCopy State.beginCommit
  split
  · split <;> simp [WriterPc.stepsLeft]
  · simp [WriterPc.stepsLeft]

theorem stepsLeft_loadRead (block : ControlBlock) (call : ReserveCall) (head : UInt64) :
    (WriterPc.loadRead call head).stepsLeft block ≤ 12 := by
  simp only [WriterPc.stepsLeft]
  split <;> decide

/-- A step that shows nothing and leaves the front. -/
theorem PassStep.quiet (uses : after.writerPc.stepsLeft block + 1 ≤ before.writerPc.stepsLeft block)
    (kept : after.writePos = before.writePos)
    (padEnd : ∀ call head, after.writerPc = .bumpPad call head → indexOf block head = 0)
    (silent : observePass block before .writer = []) (same : after.stage = before.stage) :
    PassStep block before after where
  uses := uses
  moves := by
    rw [kept]
    exact Nat.le_add_right _ _
  padEnd := padEnd
  stage := by
    rw [silent, same]
    exact .done _

/-- A step after the loop. -/
theorem PassStep.past {pc : WriterPc} (past : pc.PastReserve)
    (uses : pc.stepsLeft block + 1 ≤ before.writerPc.stepsLeft block)
    (kept : state.writePos = before.writePos) (silent : observePass block before .writer = [])
    (same : before.stage = .finished (state.returned.map ReserveResult.status)) :
    PassStep block before { state with writerPc := pc } := by
  refine .quiet uses kept ?_ silent ((stage_of_past past state).trans same.symm)
  rintro call head rfl
  exact past.elim

/-- A pass begins: it finds the ring full, or goes on to pad or to reserve. Only a
head inside the ring is followed by a padding. -/
theorem pass_loadRead (shape : Shape block) (fits : Fits block call)
    (here : before.writerPc = .loadRead call head) (taken : writerStep block before = some after) :
    PassStep block before after := by
  have begins : (loop block).step (.between head) (.begun head) = some (.within head) := by
    simp [loop]
  simp only [writerStep, here] at taken
  split at taken
  · rename_i crowded
    cases taken
    refine ⟨?_, Nat.le_add_right _ _, by simp [State.finishReserve], ?_⟩
    · simp only [State.finishReserve, here, WriterPc.stepsLeft]
      split <;> decide
    · simp only [State.stage, observePass, here, if_pos crowded]
      exact .next begins trivial (.next rfl trivial (.done _))
  · rename_i roomy
    split at taken
    · rename_i short
      cases taken
      rw [UInt64.lt_iff_toNat_lt, UInt32.toNat_toUInt64] at short
      have inside := index_ne_zero_of_short shape fits.room short
      refine ⟨?_, Nat.le_add_right _ _, by simp, ?_⟩
      · simp only [here, WriterPc.stepsLeft, if_neg inside]
        decide
      · simp only [State.stage, observePass, here, if_neg roomy]
        exact .next begins trivial (.done _)
    · cases taken
      refine ⟨?_, Nat.le_add_right _ _, by simp, ?_⟩
      · simp only [here, WriterPc.stepsLeft]
        split <;> decide
      · simp only [State.stage, observePass, here, if_neg roomy]
        exact .next begins trivial (.done _)

theorem pass_casPad (front : before.writePos = head)
    (short : (wrapPadding block head).toNat < (neededFor block call.payloadSize).toNat)
    (here : before.writerPc = .casPad call head) (taken : writerStep block before = some after) :
    PassStep block before after := by
  subst front
  simp only [writerStep, here, if_true, Option.some.injEq] at taken
  subst taken
  refine ⟨by simp only [here, WriterPc.stepsLeft]; decide, ?_, by simp, ?_⟩
  · have limit := (neededFor block call.payloadSize).toNat_lt
    simp only [UInt64.toNat_add]
    omega
  · simp only [State.stage, observePass, here, if_true]
    exact .done _

/-- The padding is published: the pass is over and the next one starts at index 0. -/
theorem pass_publishPad (shape : Shape block) (padding : Padding block before call head)
    (here : before.writerPc = .publishPad call head) (taken : writerStep block before = some after) :
    PassStep block before after := by
  have small : head.toNat + (wrapPadding block head).toNat < 2 ^ 64 := by
    rw [← padding.reserved]
    exact before.writePos.toNat_lt
  have inside := index_ne_zero_of_short shape padding.fits.room padding.short
  simp only [writerStep, here, Option.some.injEq] at taken
  subst taken
  refine ⟨by simp only [here, WriterPc.stepsLeft]; decide, Nat.le_add_right _ _, ?_, ?_⟩
  · rintro _ _ ⟨rfl, rfl⟩
    exact index_padEnd shape small
  · simp only [State.stage, observePass, here]
    exact .next (by simp [loop, inside]) trivial (.done _)

theorem pass_casSlot (front : before.writePos = head)
    (here : before.writerPc = .casSlot call head) (taken : writerStep block before = some after) :
    PassStep block before after := by
  subst front
  simp only [writerStep, here, if_true, Option.some.injEq] at taken
  subst taken
  refine ⟨by simp only [here, WriterPc.stepsLeft]; decide, ?_, by simp, ?_⟩
  · have limit := (neededFor block call.payloadSize).toNat_lt
    simp only [UInt64.toNat_add, UInt32.toNat_toUInt64]
    omega
  · simp only [State.stage, observePass, here, if_true]
    exact .next rfl trivial (.done _)

/-- One writer's step of a call, from the invariant. -/
theorem pass_writerStep (shape : Shape block) (inv : Inv block before slots)
    (padEnd : ∀ call head, before.writerPc = .bumpPad call head → indexOf block head = 0)
    (taken : writerStep block before = some after) : PassStep block before after := by
  have writer := inv.writer
  cases here : before.writerPc with
  | idle => simp [writerStep, here] at taken
  | loadHead call =>
    have left := stepsLeft_loadRead block call before.writePos
    simp only [writerStep, here, Option.some.injEq] at taken
    subst taken
    refine .quiet ?_ rfl (by simp) (by simp only [observePass, here])
      (by simp only [State.stage, here])
    simp only [here, WriterPc.stepsLeft] at left ⊢
    omega
  | loadRead call head =>
    simp only [WriterOk, here] at writer
    exact pass_loadRead shape writer.1.fits here taken
  | casPad call head =>
    simp only [WriterOk, here] at writer
    exact pass_casPad writer.2.1.symm writer.2.2.2 here taken
  | publishPad call head =>
    simp only [WriterOk, here] at writer
    exact pass_publishPad shape writer.1 here taken
  | bumpPad call head =>
    have start := padEnd call head here
    simp only [writerStep, here, Option.some.injEq] at taken
    subst taken
    refine .quiet ?_ rfl (by simp) (by simp only [observePass, here])
      (by simp only [State.stage, here])
    simp only [here, WriterPc.stepsLeft, if_pos start]
    decide
  | casSlot call head =>
    simp only [WriterOk, here] at writer
    exact pass_casSlot writer.2.1.symm here taken
  | writeSlot call head =>
    obtain ⟨pc, moved, past⟩ := afterReserve_eq (before.writeSlot block call head) call head
    simp only [writerStep, here, moved, Option.some.injEq] at taken
    subst taken
    refine .past past ?_ rfl (by simp only [observePass, here])
      (by simp only [State.stage, here]; rfl)
    rw [here]
    exact Nat.succ_le_succ (stepsLeft_of_past past)
  | copyPayload call head source =>
    simp only [writerStep, here, Option.some.injEq] at taken
    have left : after.writerPc.stepsLeft block ≤ 3 := taken ▸ stepsLeft_afterCopy block _ call head
    obtain ⟨pc, moved, past⟩ := afterCopy_eq _ call head
    rw [moved] at taken
    subst taken
    refine .past past ?_ rfl (by simp only [observePass, here]) (by simp only [State.stage, here])
    rw [here]
    exact Nat.succ_le_succ left
  | writePad _ _ | readSlotSize _ | publishSlot _ _ | bumpSlot =>
    simp only [writerStep, here, Option.some.injEq] at taken
    subst taken
    refine .quiet (by simp only [here, WriterPc.stepsLeft]; decide) rfl (by simp)
      (by simp only [observePass, here]) (by simp only [State.stage, here])

end WriterStep

section Runs

variable {entry called : State} {actions : List Action}

/-- Only the writer's steps show anything of the passes. -/
theorem observePass_other {action : Action} (other : action.isWriter = false) :
    observePass block before action = [] := by
  cases action with
  | writer => cases other
  | call _ | fill _ _ | restart | read _ | reader _ => rfl

theorem Action.BesideCall.sizeSound {action : Action} (beside : action.BesideCall) :
    action.SizeSound block := by
  cases action with
  | writer | read _ | reader _ => trivial
  | call _ | fill _ _ | restart => exact beside.elim

theorem stage_frame (frame : ConsumerFrame before after) : after.stage = before.stage := by
  simp only [State.stage, frame.writerPc, frame.writePos, frame.returned]

theorem Passing.inRange (small : NoWrap block entry) (passing : Passing block entry state) :
    InRange block state := by
  have budget := passing.budget
  unfold NoWrap at small
  unfold InRange
  omega

theorem passing_step (shape : Shape block) (small : NoWrap block entry) {action : Action}
    (passing : Passing block entry before) (beside : action.BesideCall)
    (taken : step block before action = some after) : Passing block entry after := by
  have inRange := passing.inRange small
  obtain ⟨slots, inv⟩ := passing.inv
  have kept : ∃ slots, Inv block after slots := by
    refine (inv_step shape inv ⟨beside.sizeSound, inRange, ?_⟩ taken).imp fun _ next => next.1
    rintro rfl
    exact beside.elim
  obtain ⟨rfl, stepped⟩ | ⟨-, frame⟩ := frame_of_beside beside taken
  · -- The step moves the front by what giving up one of the steps left pays for.
    obtain ⟨uses, moves, padEnd, -⟩ := pass_writerStep shape inv passing.padEnd stepped
    have budget := passing.budget
    exact ⟨kept, by omega, padEnd⟩
  · refine ⟨kept, ?_, ?_⟩
    · rw [frame.writePos, frame.writerPc]
      exact passing.budget
    · rw [frame.writerPc]
      exact passing.padEnd

section Loop

variable {events : List PassEvent} {stage : Stage} {given : Option ReserveStatus}

theorem loop_finished (run : (loop block).Run Machine.Always (.finished given) events stage) :
    events = [] ∧ stage = .finished given := by
  cases run with
  | done _ => exact ⟨rfl, rfl⟩
  | next taken _ _ => cases taken

theorem loop_between (run : (loop block).Run Machine.Always (.between head) events stage) :
    (events = [] ∧ stage = .between head) ∨
    ∃ rest, events = .begun head :: rest ∧
      (loop block).Run Machine.Always (.within head) rest stage := by
  cases run with
  | done _ => exact .inl ⟨rfl, rfl⟩
  | @next _ _ _ event _ taken _ rest =>
    cases event with
    | begun other =>
      simp only [loop, Option.ite_none_right_eq_some, Option.some.injEq] at taken
      obtain ⟨rfl, rfl⟩ := taken
      exact .inr ⟨_, rfl, rest⟩
    | ended ending => cases taken

theorem loop_within (run : (loop block).Run Machine.Always (.within head) events stage) :
    (events = [] ∧ stage = .within head) ∨
    (events = [.ended .full] ∧ stage = .finished (some .full)) ∨
    (events = [.ended .reserved] ∧ stage = .finished (some .ok)) ∨
    ∃ rest, indexOf block head ≠ 0 ∧ events = .ended .padded :: rest ∧
      (loop block).Run Machine.Always (.between (head + wrapPadding block head)) rest stage := by
  cases run with
  | done _ => exact .inl ⟨rfl, rfl⟩
  | @next _ _ _ event _ taken _ rest =>
    cases event with
    | begun other => cases taken
    | ended ending =>
      cases ending with
      | padded =>
        simp only [loop, Option.ite_none_left_eq_some, Option.some.injEq] at taken
        obtain ⟨inside, rfl⟩ := taken
        exact .inr (.inr (.inr ⟨_, inside, rfl, rest⟩))
      | full =>
        cases taken
        obtain ⟨rfl, rfl⟩ := loop_finished rest
        exact .inr (.inl ⟨rfl, rfl⟩)
      | reserved =>
        cases taken
        obtain ⟨rfl, rfl⟩ := loop_finished rest
        exact .inr (.inr (.inl ⟨rfl, rfl⟩))
      | retried => cases taken

/-- From index 0 the next pass is the last. -/
theorem loop_last (start : indexOf block head = 0)
    (run : (loop block).Run Machine.Always (.between head) events stage) :
    ∃ whole status, LastPass head whole status ∧ events <+: whole ∧
      ∀ given, stage = .finished given → events = whole ∧ given = some status := by
  obtain ⟨rfl, rfl⟩ | ⟨rest, rfl, within⟩ := loop_between run
  · exact ⟨_, _, .full, List.nil_prefix, by simp⟩
  · obtain ⟨rfl, rfl⟩ | ⟨rfl, rfl⟩ | ⟨rfl, rfl⟩ | ⟨_, inside, -⟩ := loop_within within
    · exact ⟨_, _, .full, ⟨[.ended .full], rfl⟩, by simp⟩
    · exact ⟨_, _, .full, List.prefix_rfl, fun given same => ⟨rfl, by simpa using same.symm⟩⟩
    · exact ⟨_, _, .reserved, List.prefix_rfl, fun given same => ⟨rfl, by simpa using same.symm⟩⟩
    · exact absurd start inside

/-- From any head at most one padding comes before the last pass. -/
theorem loop_shape (start : indexOf block (head + wrapPadding block head) = 0)
    (run : (loop block).Run Machine.Always (.between head) events stage) :
    ∃ whole status, TwoPasses block head whole status ∧ events <+: whole ∧
      ∀ given, stage = .finished given → events = whole ∧ given = some status := by
  obtain ⟨rfl, rfl⟩ | ⟨rest, rfl, within⟩ := loop_between run
  · exact ⟨_, _, .one .full, List.nil_prefix, by simp⟩
  · obtain ⟨rfl, rfl⟩ | ⟨rfl, rfl⟩ | ⟨rfl, rfl⟩ | ⟨later, -, rfl, again⟩ :=
      loop_within within
    · exact ⟨_, _, .one .full, ⟨[.ended .full], rfl⟩, by simp⟩
    · exact ⟨_, _, .one .full, List.prefix_rfl, fun given same => ⟨rfl, by simpa using same.symm⟩⟩
    · exact ⟨_, _, .one .reserved, List.prefix_rfl,
        fun given same => ⟨rfl, by simpa using same.symm⟩⟩
    · obtain ⟨whole, status, last, begun, complete⟩ := loop_last start again
      refine ⟨_, status, .two start last, ?_, fun given same => ?_⟩
      · exact (List.prefix_append_right_inj (pass head .padded)).mpr begun
      · obtain ⟨rfl, returned⟩ := complete given same
        exact ⟨rfl, returned⟩

end Loop

/-- A call's trace is a run of the loop. -/
theorem passing_refines (shape : Shape block) (small : NoWrap block entry)
    (passing : Passing block entry called)
    (run : (machine block).Run (fun _ action _ => action.BesideCall) called actions state) :
    (loop block).Run Machine.Always called.stage
      ((machine block).trace (observePass block) called actions) state.stage := by
  refine run.refines (loop block) State.stage (observePass block) (Passing block entry) ?_ ?_ passing
  · intro before action after passing beside taken
    exact passing_step shape small passing beside taken
  · intro before action after passing beside taken
    obtain ⟨slots, inv⟩ := passing.inv
    obtain ⟨rfl, stepped⟩ | ⟨other, frame⟩ := frame_of_beside beside taken
    · exact (pass_writerStep shape inv passing.padEnd stepped).stage
    · rw [observePass_other other, stage_frame frame]
      exact .done _

theorem passing_steps (shape : Shape block) (small : NoWrap block entry)
    (passing : Passing block entry called)
    (run : (machine block).Run (fun _ action _ => action.BesideCall) called actions state) :
    actions.countP Action.isWriter + state.writerPc.stepsLeft block ≤
      called.writerPc.stepsLeft block := by
  refine run.countP_le Action.isWriter (fun state => state.writerPc.stepsLeft block)
    (Passing block entry) ?_ ?_ passing
  · intro before action after passing beside taken
    exact passing_step shape small passing beside taken
  · intro before action after passing beside taken
    obtain ⟨slots, inv⟩ := passing.inv
    obtain ⟨rfl, stepped⟩ | ⟨other, frame⟩ := frame_of_beside beside taken
    · exact (pass_writerStep shape inv passing.padEnd stepped).uses
    · simp [other, frame.writerPc]

/-- A pass that is about to look at `read_pos` computes without overflow. -/
theorem Inv.passExact (shape : Shape block) (inv : Inv block state slots)
    (inRange : InRange block state) (here : state.writerPc = .loadRead call head) :
    PassExact block state call head := by
  have writer := inv.writer
  simp only [WriterOk, here] at writer
  obtain ⟨-, rfl⟩ := writer
  have ordered := Nat.le_trans inv.front_le inv.committed
  have bounded := inv.bounded
  have edge := index_add_wrapPadding shape state.writePos
  have limit := (neededFor block call.payloadSize).toNat_lt
  unfold InRange at inRange
  exact ⟨ordered, by omega, by omega⟩

theorem Inv.casPad_head (inv : Inv block state slots) (here : state.writerPc = .casPad call head) :
    state.writePos = head := by
  have writer := inv.writer
  simp only [WriterOk, here] at writer
  exact writer.2.1.symm

theorem Inv.casSlot_head (inv : Inv block state slots)
    (here : state.writerPc = .casSlot call head) : state.writePos = head := by
  have writer := inv.writer
  simp only [WriterOk, here] at writer
  exact writer.2.1.symm

/-- Only an idle writer has no step. -/
theorem writer_enabled (busy : state.writerPc ≠ .idle) :
    ∃ next, step block state .writer = some next := by
  simp only [step, writerStep]
  cases here : state.writerPc with
  | idle => exact absurd here busy
  | loadRead _ _ =>
    dsimp only
    split
    · exact ⟨_, rfl⟩
    · split <;> exact ⟨_, rfl⟩
  | casPad _ _ | casSlot _ _ =>
    dsimp only
    split <;> exact ⟨_, rfl⟩
  | loadHead _ | writePad _ _ | publishPad _ _ | bumpPad _ _ | writeSlot _ _ | copyPayload _ _ _
  | readSlotSize _ | publishSlot _ _ | bumpSlot => exact ⟨_, rfl⟩

theorem step_reserve (begun : step block entry (.call (.reserve call)) = some called) :
    entry.writerPc = .idle ∧ entry.beginReserve block call = called := by
  simp only [step] at begun
  split at begun
  · rename_i idle same
    cases same
    cases begun
    exact ⟨idle, rfl⟩
  · rename_i other
    cases other
  · cases begun

/-- A call that begins is refused at once or about to load its head, the fronts as
they were. -/
theorem beginReserve_cases (block : ControlBlock) (entry : State) (call : ReserveCall) :
    ((entry.beginReserve block call).writerPc = .idle ∨
      (entry.beginReserve block call).writerPc = .loadHead call) ∧
    (entry.beginReserve block call).writePos = entry.writePos := by
  unfold State.beginReserve
  split
  · exact ⟨.inl rfl, rfl⟩
  · split
    · exact ⟨.inl rfl, rfl⟩
    · exact ⟨.inr rfl, rfl⟩

theorem beginReserve_stepsLeft (block : ControlBlock) (entry : State) (call : ReserveCall) :
    (entry.beginReserve block call).writerPc.stepsLeft block ≤ 13 := by
  rcases (beginReserve_cases block entry call).1 with refused | loading
  · rw [refused]
    exact Nat.zero_le _
  · rw [loading]
    exact Nat.le_refl _

theorem passing_begin (shape : Shape block) (inv : Inv block entry slots)
    (idle : entry.writerPc = .idle) (limit : call.payloadSize.toNat ≤ payloadLimit) :
    Passing block entry (entry.beginReserve block call) := by
  obtain ⟨place, kept⟩ := beginReserve_cases block entry call
  have begun := inv_beginReserve inv idle (.inl (unwrapped_of_limit shape limit))
  refine ⟨⟨slots, begun⟩, ?_, ?_⟩
  · rw [kept]
    exact Nat.add_le_add_left (Nat.mul_le_mul_right _ (beginReserve_stepsLeft block entry call)) _
  · intro call head pads
    rcases place with refused | loading
    · rw [refused] at pads
      cases pads
    · rw [loading] at pads
      cases pads

/-- The passes of a call that begins refused or about to load its head, read off
the loop. -/
theorem passes_of_loop {events : List PassEvent}
    (place : called.writerPc = .idle ∨ called.writerPc = .loadHead call)
    (start : indexOf block (called.writePos + wrapPadding block called.writePos) = 0)
    (traced : (loop block).Run Machine.Always called.stage events state.stage) :
    ∃ whole status, TwoPasses block called.writePos whole status ∧ events <+: whole ∧
      (called.writerPc ≠ .idle → state.writerPc = .idle →
        events = whole ∧ ∃ result, state.returned = some result ∧ result.status = status) := by
  rcases place with refused | loading
  · have out : called.stage = .finished (called.returned.map ReserveResult.status) := by
      simp only [State.stage, refused]
    rw [out] at traced
    rw [(loop_finished traced).1]
    exact ⟨_, _, .one .full, List.nil_prefix, fun busy => absurd refused busy⟩
  · have outset : called.stage = .between called.writePos := by
      simp only [State.stage, loading]
    rw [outset] at traced
    obtain ⟨whole, status, shaped, begins, complete⟩ := loop_shape start traced
    refine ⟨whole, status, shaped, begins, fun _ resting => ?_⟩
    have ended : state.stage = .finished (state.returned.map ReserveResult.status) := by
      simp only [State.stage, resting]
    obtain ⟨same, returned⟩ := complete _ ended
    exact ⟨same, Option.map_eq_some_iff.mp returned⟩

end Runs

/-- With one producer and the consumer stepping beside it, every call of
`try_reserve` is done after at most two passes. -/
theorem reserve_loop_bounded {header : ControlBlock} {capacity : UInt64} {alignment itemSize : UInt32}
    {data : Memory} {entry called : State} {actions : List Action}
    (accepted : initControlBlock header capacity .varlen alignment itemSize = some block)
    (reached : (machine block).Reachable (SingleSession block) (initial block data) entry)
    (small : NoWrap block entry) (limit : call.payloadSize.toNat ≤ payloadLimit)
    (begun : step block entry (.call (.reserve call)) = some called)
    (run : (machine block).Run (fun _ action _ => action.BesideCall) called actions state) :
    ReserveBounded block called actions state := by
  obtain ⟨geometry, slots, inv⟩ := single_inv accepted reached
  have shape := geometry.toShape
  obtain ⟨idle, rfl⟩ := step_reserve begun
  obtain ⟨place, kept⟩ := beginReserve_cases block entry call
  have passing := passing_begin shape inv idle limit
  have ended : Passing block entry state :=
    run.preserves _ (fun _ _ _ passing beside taken =>
      passing_step shape small passing beside taken) passing
  have inRange := ended.inRange small
  have start : indexOf block ((entry.beginReserve block call).writePos +
      wrapPadding block (entry.beginReserve block call).writePos) = 0 := by
    have edge := index_add_wrapPadding shape entry.writePos
    unfold NoWrap at small
    rw [kept]
    exact index_padEnd shape (by omega)
  have traced := passing_refines shape small passing run
  have steps := passing_steps shape small passing run
  obtain ⟨now, current⟩ := ended.inv
  refine ⟨?_, ?_, writer_enabled, fun _ _ => current.casPad_head, fun _ _ => current.casSlot_head,
    fun _ _ => current.passExact shape inRange, current.bounded⟩
  · exact passes_of_loop place start traced
  · have most := beginReserve_stepsLeft block entry call
    omega

/-- A call whose first pass pads; the consumer skips the padding before the second
pass looks, which then has room for the slot. -/
theorem reserve_loop_bounded_padded : ∃ entry called state actions,
    (machine sampleBlock).Reachable (SingleSession sampleBlock) (initial sampleBlock fun _ => 0)
      entry ∧
    step sampleBlock entry (.call (tryReserve 16)) = some called ∧
    (machine sampleBlock).Run (fun _ action _ => action.BesideCall) called actions state ∧
    (machine sampleBlock).trace (observePass sampleBlock) called actions =
      pass 40 .padded ++ pass 64 .reserved ∧
    ReserveBounded sampleBlock called actions state := by
  let actions : List Action := List.replicate 6 .writer ++
    .read .handler :: List.replicate 7 (.reader true) ++ List.replicate 3 .writer
  obtain ⟨entry, earlier, passed⟩ := (machine sampleBlock).run_of_replay (SingleSession sampleBlock)
    (initial sampleBlock fun _ => 0)
    (.call (write 8 (some fun _ => 9)) :: List.replicate 8 .writer ++
      .read .handler :: List.replicate 11 (.reader true))
    (fun entry => decide (NoWrap sampleBlock entry) &&
      (step sampleBlock entry (.call (tryReserve 16))).any fun called =>
        decide ((machine sampleBlock).trace (observePass sampleBlock) called actions =
          pass 40 .padded ++ pass 64 .reserved) &&
        ((machine sampleBlock).replay (fun _ action _ => action.BesideCall) called actions).any
          fun state => state.writerPc.isIdle) (by decide +kernel)
  simp only [Bool.and_eq_true, decide_eq_true_eq, Option.any_eq_true] at passed
  obtain ⟨small, called, begun, traced, state, replayed, -⟩ := passed
  have run := Machine.replay_run replayed
  exact ⟨entry, called, state, actions, ⟨_, earlier⟩, begun, run, traced,
    reserve_loop_bounded sampleBlock_accepted ⟨_, earlier⟩ small (by decide) begun run⟩

end SpscRing.Varlen
