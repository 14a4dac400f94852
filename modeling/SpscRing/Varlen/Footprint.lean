import SpscRing.Varlen.System

/-! What the local parts of the producer and the steps of the consumer leave alone. -/

namespace SpscRing.Varlen

open SpscRing.Foundation

variable {block : ControlBlock} {state after : State}

/-- The consumer writes its own front, its wake word and its verdicts only. -/
structure ConsumerFrame (before after : State) : Prop where
  data : after.data = before.data
  writePos : after.writePos = before.writePos
  commitPos : after.commitPos = before.commitPos
  commitSeq : after.commitSeq = before.commitSeq
  writerPc : after.writerPc = before.writerPc
  pending : after.pending = before.pending
  lastPosition : after.lastPosition = before.lastPosition
  requested : after.requested = before.requested
  returned : after.returned = before.returned
  draft : after.log.draft = before.log.draft
  published : after.log.published = before.log.published
  commits : after.log.commits = before.log.commits

theorem ConsumerFrame.of_consumer (state : State) (readPos : UInt64) (readWakeSeq : UInt32)
    (result : Option ReadOutcome) (readerPc : ReaderPc) (reads : List ReadOutcome) :
    ConsumerFrame state { state with
      readPos, readWakeSeq, result, readerPc, log := { state.log with reads } } :=
  ⟨rfl, rfl, rfl, rfl, rfl, rfl, rfl, rfl, rfl, rfl, rfl, rfl⟩

theorem ConsumerFrame.refl (state : State) : ConsumerFrame state state :=
  .of_consumer state _ _ _ _ _

theorem ConsumerFrame.trans {before between after : State} (first : ConsumerFrame before between)
    (second : ConsumerFrame between after) : ConsumerFrame before after where
  data := second.data.trans first.data
  writePos := second.writePos.trans first.writePos
  commitPos := second.commitPos.trans first.commitPos
  commitSeq := second.commitSeq.trans first.commitSeq
  writerPc := second.writerPc.trans first.writerPc
  pending := second.pending.trans first.pending
  lastPosition := second.lastPosition.trans first.lastPosition
  requested := second.requested.trans first.requested
  returned := second.returned.trans first.returned
  draft := second.draft.trans first.draft
  published := second.published.trans first.published
  commits := second.commits.trans first.commits

/-- The writer is not inside the reservation loop. -/
def WriterPc.PastReserve : WriterPc → Prop
  | .idle | .copyPayload _ _ _ | .readSlotSize _ | .publishSlot _ _ | .bumpSlot => True
  | _ => False

section Quiet

variable (state : State) (call : ReserveCall) (position : UInt64)

/-- The local parts of the producer's calls change its program counter only,
and the result it returns. -/
theorem beginCommit_eq :
    ∃ pc, state.beginCommit position = { state with writerPc := pc } ∧ pc.PastReserve := by
  unfold State.beginCommit
  split <;> exact ⟨_, rfl, trivial⟩

theorem afterCopy_eq :
    ∃ pc, state.afterCopy call position = { state with writerPc := pc } ∧ pc.PastReserve := by
  unfold State.afterCopy
  split
  · exact beginCommit_eq state position
  · exact ⟨_, rfl, trivial⟩

theorem afterReserve_eq :
    ∃ pc, state.afterReserve call position = { state with writerPc := pc } ∧ pc.PastReserve := by
  unfold State.afterReserve
  split
  · split
    · exact ⟨_, rfl, trivial⟩
    · exact afterCopy_eq state call position
  · exact afterCopy_eq state call position

theorem beginReserve_eq : ∃ pc returned,
    state.beginReserve block call = { state with writerPc := pc, returned := returned } := by
  unfold State.beginReserve
  split
  · exact ⟨_, _, rfl⟩
  · split <;> exact ⟨_, _, rfl⟩

end Quiet

theorem readerStep_frame {answer : Bool} (taken : readerStep block answer state = some after) :
    ConsumerFrame state after := by
  cases here : state.readerPc with
  | idle => simp [readerStep, here] at taken
  | loadCommit _ _ =>
    simp only [readerStep, here, State.finishEmpty, State.finishRead] at taken
    split at taken
    · split at taken <;> cases taken <;> exact .of_consumer state _ _ _ _ _
    · cases taken
      exact .of_consumer state _ _ _ _ _
  | checkPublished _ _ _ | checkWhole _ _ _ | checkPadding _ _ | handle _ _ _ _ =>
    simp only [readerStep, here, State.finishEmpty, State.finishRead] at taken
    split at taken <;> cases taken <;> exact .of_consumer state _ _ _ _ _
  | loadRead _ | skipSize _ _ | skipStore _ _ _ | skipBump _ | takeSize _ _ | takeMeta _ _ _
  | consumeSize _ | consumeStore _ _ | consumeBump =>
    simp only [readerStep, here] at taken
    cases taken
    exact .of_consumer state _ _ _ _ _

/-- The writer's calls do not touch what belongs to the consumer. -/
structure ProducerFrame (before after : State) : Prop where
  readPos : after.readPos = before.readPos
  readWakeSeq : after.readWakeSeq = before.readWakeSeq
  readerPc : after.readerPc = before.readerPc
  result : after.result = before.result
  reads : after.log.reads = before.log.reads

theorem ProducerFrame.refl (state : State) : ProducerFrame state state :=
  ⟨rfl, rfl, rfl, rfl, rfl⟩

theorem ProducerFrame.trans {before between after : State} (first : ProducerFrame before between)
    (second : ProducerFrame between after) : ProducerFrame before after :=
  ⟨second.readPos.trans first.readPos, second.readWakeSeq.trans first.readWakeSeq,
    second.readerPc.trans first.readerPc, second.result.trans first.result,
    second.reads.trans first.reads⟩

theorem beginReserve_frame (block : ControlBlock) (state : State) (call : ReserveCall) :
    ProducerFrame state (state.beginReserve block call) := by
  obtain ⟨pc, returned, quiet⟩ := beginReserve_eq state call
  rw [quiet]
  exact ⟨rfl, rfl, rfl, rfl, rfl⟩

theorem writerStep_frame (taken : writerStep block state = some after) :
    ProducerFrame state after := by
  cases here : state.writerPc with
  | idle => simp [writerStep, here] at taken
  | loadRead _ _ =>
    simp only [writerStep, here, State.finishReserve] at taken
    split at taken
    · cases taken
      exact ⟨rfl, rfl, rfl, rfl, rfl⟩
    · split at taken <;> cases taken <;> exact ⟨rfl, rfl, rfl, rfl, rfl⟩
  | casPad _ _ | casSlot _ _ =>
    simp only [writerStep, here] at taken
    split at taken <;> cases taken <;> exact ⟨rfl, rfl, rfl, rfl, rfl⟩
  | writeSlot call head =>
    simp only [writerStep, here] at taken
    cases taken
    obtain ⟨pc, quiet, -⟩ := afterReserve_eq (state.writeSlot block call head) call head
    rw [quiet]
    exact ⟨rfl, rfl, rfl, rfl, rfl⟩
  | copyPayload call head source =>
    simp only [writerStep, here] at taken
    cases taken
    obtain ⟨pc, quiet, -⟩ := afterCopy_eq _ call head
    rw [quiet]
    exact ⟨rfl, rfl, rfl, rfl, rfl⟩
  | loadHead _ | writePad _ _ | publishPad _ _ | bumpPad _ _ | readSlotSize _ | publishSlot _ _
  | bumpSlot =>
    simp only [writerStep, here] at taken
    cases taken
    exact ⟨rfl, rfl, rfl, rfl, rfl⟩

/-- Starting a call and filling a slot touch neither a front nor what is logged as
committed; everything else a step can do is a step of one side or a restart. -/
theorem step_cases {action : Action} (taken : step block state action = some after) :
    (∃ data writerPc returned draft, after = { state with
      data, writerPc, returned, log := { state.log with draft } }) ∨
    writerStep block state = some after ∨ (action = .restart ∧ after = state.restart) ∨
    (∃ readerPc, after = { state with readerPc }) ∨
    ∃ answer, readerStep block answer state = some after := by
  cases action with
  | call call =>
    simp only [step] at taken
    split at taken
    · cases taken
      obtain ⟨pc, returned, quiet⟩ := beginReserve_eq state _
      exact .inl ⟨_, pc, returned, _, quiet⟩
    · cases taken
      obtain ⟨pc, quiet, -⟩ := beginCommit_eq state _
      exact .inl ⟨_, pc, _, _, quiet⟩
    · cases taken
  | fill offset bytes =>
    simp only [step] at taken
    split at taken
    · split at taken
      · cases taken
        exact .inl ⟨_, _, _, _, rfl⟩
      · cases taken
    · cases taken
  | writer => exact .inr (.inl taken)
  | restart =>
    cases taken
    exact .inr (.inr (.inl ⟨rfl, rfl⟩))
  | read call =>
    simp only [step] at taken
    split at taken
    · cases taken
      exact .inr (.inr (.inr (.inl ⟨_, rfl⟩)))
    · cases taken
  | reader answer => exact .inr (.inr (.inr (.inr ⟨answer, taken⟩)))

/-- The verdict of the last `read` is the last one in the record. -/
def Recorded (state : State) : Prop := state.log.reads.getLast? = state.result

/-- A step of `read` gives one verdict, recorded as it is given, or none. -/
theorem readerStep_verdict {answer : Bool} (taken : readerStep block answer state = some after) :
    (after.result = state.result ∧ after.log.reads = state.log.reads) ∨
    ∃ outcome, after.result = some outcome ∧ after.log.reads = state.log.reads ++ [outcome] := by
  cases here : state.readerPc with
  | idle => simp [readerStep, here] at taken
  | loadCommit _ _ =>
    simp only [readerStep, here] at taken
    split at taken <;> split at taken <;> cases taken
    · exact .inr ⟨_, rfl, rfl⟩
    · exact .inl ⟨rfl, rfl⟩
    · exact .inr ⟨_, rfl, rfl⟩
    · exact .inl ⟨rfl, rfl⟩
  | checkPublished _ _ _ | checkWhole _ _ _ =>
    simp only [readerStep, here] at taken
    split at taken <;> cases taken
    · exact .inr ⟨_, rfl, rfl⟩
    · exact .inl ⟨rfl, rfl⟩
  | handle _ _ _ _ =>
    simp only [readerStep, here] at taken
    split at taken <;> cases taken <;> exact .inr ⟨_, rfl, rfl⟩
  | checkPadding _ _ =>
    simp only [readerStep, here] at taken
    split at taken <;> cases taken <;> exact .inl ⟨rfl, rfl⟩
  | loadRead _ | skipSize _ _ | skipStore _ _ _ | skipBump _ | takeSize _ _ | takeMeta _ _ _
  | consumeSize _ | consumeStore _ _ | consumeBump =>
    simp only [readerStep, here] at taken
    cases taken
    exact .inl ⟨rfl, rfl⟩

theorem recorded_step {action : Action} (recorded : Recorded state)
    (taken : step block state action = some after) : Recorded after := by
  unfold Recorded at recorded ⊢
  rcases step_cases taken with ⟨_, _, _, _, rfl⟩ | wrote | ⟨-, rfl⟩ | ⟨_, rfl⟩ | ⟨answer, read⟩
  · exact recorded
  · have frame := writerStep_frame wrote
    rw [frame.reads, frame.result]
    exact recorded
  · exact recorded
  · exact recorded
  · rcases readerStep_verdict read with ⟨result, reads⟩ | ⟨outcome, result, reads⟩
    · rw [result, reads]
      exact recorded
    · rw [result, reads]
      simp

theorem recorded_of_reachable {allowed : State → Action → State → Prop} {data : Memory}
    (reached : (machine block).Reachable allowed (initial block data) state) : Recorded state :=
  reached.invariant Recorded rfl fun _ _ _ recorded _ taken => recorded_step recorded taken

end SpscRing.Varlen
