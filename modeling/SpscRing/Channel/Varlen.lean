import SpscRing.Channel.Response
import SpscRing.Varlen.Representation

/-! The variable-length ring as a blocking channel. The producer waits for room for one
message, the consumer for anything published; padding is published, bumped and
skipped like a message. -/

namespace SpscRing.Varlen

open SpscRing.Foundation SpscRing.NotifyWord SpscRing.Channel

def ReaderPc.isIdle : ReaderPc → Bool
  | .idle => true
  | _ => false

theorem ReaderPc.isIdle_iff {pc : ReaderPc} : pc.isIdle = true ↔ pc = .idle := by
  cases pc <;> simp [isIdle]

/-- The front is stored and its word not yet bumped. -/
def WriterPc.bumping : WriterPc → Bool
  | .bumpPad _ _ | .bumpSlot => true
  | _ => false

def ReaderPc.bumping : ReaderPc → Bool
  | .skipBump _ | .consumeBump => true
  | _ => false

def Action.actor : Action → Role
  | .call _ | .fill _ _ | .writer | .restart => .producer
  | .read _ | .reader _ => .consumer

/-- The next access of the call one end is in. -/
def nextOf : Role → Action
  | .producer => .writer
  | .consumer => .reader true

/-- The producer waits while `try_reserve` finds no room for a payload of the given
size, one the ring could hold, and with no reservation outstanding; the consumer
while `read` finds nothing published. -/
def ends (block : ControlBlock) : Ends State Action UInt32 where
  step := step block
  actor := Action.actor
  front
    | .producer, state => state.commitPos
    | .consumer, state => state.readPos
  word
    | .producer, state => state.commitSeq
    | .consumer, state => state.readWakeSeq
  setWord
    | .producer, state, word => { state with commitSeq := word }
    | .consumer, state, word => { state with readWakeSeq := word }
  publishing
    | .producer, state => state.writerPc.bumping
    | .consumer, state => state.readerPc.bumping
  parks
    | .producer, payloadSize, state => state.writerPc.isIdle && !state.pending &&
      decide ((neededFor block payloadSize).toUInt64 ≤ block.dataCapacity)
    | .consumer, _, state => state.readerPc.isIdle
  mustWait
    | .producer, payloadSize, state, read =>
      state.writePos - read + (neededFor block payloadSize).toUInt64 > block.dataCapacity
    | .consumer, _, state, committed => committed ≤ state.readPos

variable {block : ControlBlock} {state before after : State} {action : Action} {slots : List Slot}

/-- The local parts of the producer's calls never end at a bump. -/
theorem bumping_beginCommit (state : State) (position : UInt64) :
    (state.beginCommit position).writerPc.bumping = false := by
  unfold State.beginCommit
  split <;> rfl

theorem bumping_afterCopy (state : State) (call : ReserveCall) (head : UInt64) :
    (state.afterCopy call head).writerPc.bumping = false := by
  unfold State.afterCopy
  split
  · exact bumping_beginCommit state head
  · rfl

theorem bumping_afterReserve (state : State) (call : ReserveCall) (head : UInt64) :
    (state.afterReserve call head).writerPc.bumping = false := by
  unfold State.afterReserve
  split
  · split
    · rfl
    · exact bumping_afterCopy state call head
  · exact bumping_afterCopy state call head

theorem bumping_beginReserve (block : ControlBlock) (state : State) (call : ReserveCall) :
    (state.beginReserve block call).writerPc.bumping = false := by
  unfold State.beginReserve
  split
  · rfl
  · split <;> rfl

/-- To its peer, a step of the producer is nothing, the publication of a padding slot
or a message, or the bump after it. -/
theorem ends_acts_writer (taken : writerStep block before = some after) :
    Acts (ends block) .producer before after := by
  cases here : before.writerPc with
  | idle => simp [writerStep, here] at taken
  | loadRead call head =>
    simp only [writerStep, here, State.finishReserve] at taken
    split at taken
    · cases taken
      exact .quiet ⟨rfl, rfl, by simp [ends, here, WriterPc.bumping]⟩
    · split at taken <;> cases taken <;>
        exact .quiet ⟨rfl, rfl, by simp [ends, here, WriterPc.bumping]⟩
  | casPad _ _ | casSlot _ _ =>
    simp only [writerStep, here] at taken
    split at taken <;> cases taken <;>
      exact .quiet ⟨rfl, rfl, by simp [ends, here, WriterPc.bumping]⟩
  | loadHead _ | writePad _ _ | readSlotSize _ =>
    simp only [writerStep, here, Option.some.injEq] at taken
    subst taken
    exact .quiet ⟨rfl, rfl, by simp [ends, here, WriterPc.bumping]⟩
  | publishPad call head | publishSlot position slotSize =>
    simp only [writerStep, here, Option.some.injEq] at taken
    subst taken
    exact .publish (by simp [ends, here, WriterPc.bumping]) rfl rfl
  | bumpPad _ _ | bumpSlot =>
    simp only [writerStep, here, Option.some.injEq] at taken
    subst taken
    exact .bump (by simp [ends, here, WriterPc.bumping]) rfl rfl rfl
  | writeSlot call head =>
    simp only [writerStep, here, Option.some.injEq] at taken
    have still := bumping_afterReserve (before.writeSlot block call head) call head
    obtain ⟨pc, quiet, -⟩ := afterReserve_eq (before.writeSlot block call head) call head
    rw [taken] at still quiet
    subst quiet
    exact .quiet ⟨rfl, rfl, by simpa [ends, here, WriterPc.bumping] using still⟩
  | copyPayload call head source =>
    simp only [writerStep, here, Option.some.injEq] at taken
    have still := taken ▸ bumping_afterCopy _ call head
    obtain ⟨pc, quiet, -⟩ := afterCopy_eq { before with
      data := before.data.write (indexOf block head + 32) (source.read 0 call.payloadSize.toNat)
      log := before.log.fill 0 (source.read 0 call.payloadSize.toNat) } call head
    rw [here, taken] at quiet
    subst quiet
    exact .quiet ⟨rfl, rfl, by simpa [ends, here, WriterPc.bumping] using still⟩

theorem ends_acts_reader {answer : Bool} (taken : readerStep block answer before = some after) :
    Acts (ends block) .consumer before after := by
  cases here : before.readerPc with
  | idle => simp [readerStep, here] at taken
  | loadCommit _ _ =>
    simp only [readerStep, here, State.finishEmpty, State.finishRead] at taken
    split at taken
    · split at taken <;> cases taken <;>
        exact .quiet ⟨rfl, rfl, by simp [ends, here, ReaderPc.bumping]⟩
    · cases taken
      exact .quiet ⟨rfl, rfl, by simp [ends, here, ReaderPc.bumping]⟩
  | checkPublished _ _ _ | checkWhole _ _ _ | checkPadding _ _ | handle _ _ _ _ =>
    simp only [readerStep, here, State.finishEmpty, State.finishRead] at taken
    split at taken <;> cases taken <;>
      exact .quiet ⟨rfl, rfl, by simp [ends, here, ReaderPc.bumping]⟩
  | loadRead _ | skipSize _ _ | takeSize _ _ | takeMeta _ _ _ | consumeSize _ =>
    simp only [readerStep, here, Option.some.injEq] at taken
    subst taken
    exact .quiet ⟨rfl, rfl, by simp [ends, here, ReaderPc.bumping]⟩
  | skipStore _ _ _ | consumeStore _ _ =>
    simp only [readerStep, here, Option.some.injEq] at taken
    subst taken
    exact .publish (by simp [ends, here, ReaderPc.bumping]) rfl rfl
  | skipBump _ | consumeBump =>
    simp only [readerStep, here, Option.some.injEq] at taken
    subst taken
    exact .bump (by simp [ends, here, ReaderPc.bumping]) rfl rfl rfl

/-- What the other end can see of a step, apart from a restart. -/
theorem ends_step (single : action ≠ .restart) (taken : step block before action = some after) :
    (action.actor = .producer ∧ Acts (ends block) .producer before after ∧
      ProducerFrame before after) ∨
    (action.actor = .consumer ∧ Acts (ends block) .consumer before after ∧
      ConsumerFrame before after) := by
  cases action with
  | call call =>
    refine .inl ⟨rfl, ?_⟩
    simp only [step] at taken
    split at taken
    · rename_i call idle
      cases taken
      have still := bumping_beginReserve block before call
      obtain ⟨pc, returned, quiet⟩ := @beginReserve_eq block before call
      rw [quiet] at still ⊢
      exact ⟨.quiet ⟨rfl, rfl, by simpa [ends, idle, WriterPc.bumping] using still⟩,
        ⟨rfl, rfl, rfl, rfl, rfl⟩⟩
    · rename_i position idle
      cases taken
      have still := bumping_beginCommit before position
      obtain ⟨pc, quiet, -⟩ := beginCommit_eq before position
      rw [quiet] at still ⊢
      exact ⟨.quiet ⟨rfl, rfl, by simpa [ends, idle, WriterPc.bumping] using still⟩,
        ⟨rfl, rfl, rfl, rfl, rfl⟩⟩
    · cases taken
  | fill offset bytes =>
    simp only [step] at taken
    split at taken
    · split at taken
      · cases taken
        exact .inl ⟨rfl, .quiet ⟨rfl, rfl, rfl⟩, ⟨rfl, rfl, rfl, rfl, rfl⟩⟩
      · cases taken
    · cases taken
  | writer => exact .inl ⟨rfl, ends_acts_writer taken, writerStep_frame taken⟩
  | restart => exact absurd rfl single
  | read call =>
    simp only [step] at taken
    split at taken
    · rename_i idle
      cases taken
      exact .inr ⟨rfl, .quiet ⟨rfl, rfl, by simp [ends, idle, ReaderPc.bumping]⟩,
        .of_consumer before _ _ _ _ _⟩
    · cases taken
  | reader answer => exact .inr ⟨rfl, ends_acts_reader taken, readerStep_frame taken⟩

theorem ProducerFrame.quiet (frame : ProducerFrame before after) :
    Quiet (ends block) .consumer before after :=
  ⟨frame.readPos, frame.readWakeSeq, congrArg ReaderPc.bumping frame.readerPc⟩

theorem ConsumerFrame.quiet (kept : ConsumerFrame before after) :
    Quiet (ends block) .producer before after :=
  ⟨kept.commitPos, kept.commitSeq, congrArg WriterPc.bumping kept.writerPc⟩

/-- The invariant does not depend on the notify words. -/
theorem Inv.setWord (inv : Inv block state slots) (role : Role) (word : UInt32) :
    Inv block ((ends block).setWord role state word) slots := by
  cases role with
  | consumer => exact inv.look state.readerPc inv.reader rfl
  | producer =>
    refine { inv with writer := ?_ }
    have writer := inv.writer
    change WriterOk block { state with commitSeq := word }
    cases here : state.writerPc with
    | idle =>
      simp only [WriterOk, here] at writer ⊢
      rcases writer with settled | ⟨header, outstanding⟩
      · exact .inl { settled with }
      · exact .inr ⟨header, { outstanding with }⟩
    | loadRead _ _ | bumpPad _ _ | casPad _ _ | casSlot _ _ | publishPad _ _ =>
      simp only [WriterOk, here] at writer ⊢
      exact ⟨{ writer.1 with }, writer.2⟩
    | loadHead _ | writePad _ _ | writeSlot _ _ | bumpSlot =>
      simp only [WriterOk, here] at writer ⊢
      exact { writer with }
    | copyPayload _ _ _ | readSlotSize _ | publishSlot _ _ =>
      simp only [WriterOk, here] at writer ⊢
      obtain ⟨header, outstanding, rest⟩ := writer
      exact ⟨header, { outstanding with }, rest⟩

/-- Some slots make the invariant true. -/
def Sound (block : ControlBlock) (state : State) : Prop := ∃ slots, Inv block state slots

theorem ends_lawful (shape : Shape block) :
    Lawful (ends block) (SingleSession block) (Sound block) where
  word_setWord role ring word := by cases role <;> rfl
  peer_setWord role ring word := by cases role <;> exact ⟨rfl, rfl, rfl⟩
  front_setWord role ring word := by cases role <;> rfl
  publishing_setWord role ring word := by cases role <;> rfl
  parks_setWord self role arg ring word := by cases self <;> cases role <;> rfl
  mustWait_setWord self role arg ring word := by cases self <;> cases role <;> rfl
  sound_setWord role ring word sound := by
    obtain ⟨slots, inv⟩ := sound
    exact ⟨slots, inv.setWord role word⟩
  sound_step before action after sound admitted taken := by
    obtain ⟨slots, inv⟩ := sound
    obtain ⟨next, kept, -⟩ := inv_step shape inv (admitted.orderly shape) taken
    exact ⟨next, kept⟩
  acts before action after admitted taken := by
    change Acts _ action.actor _ _
    rcases ends_step admitted.single taken with ⟨actor, acts, -⟩ | ⟨actor, acts, -⟩ <;>
      exact actor ▸ acts
  leaves before action after admitted taken := by
    change Quiet _ action.actor.peer _ _
    rcases ends_step admitted.single taken with ⟨actor, -, kept⟩ | ⟨actor, -, kept⟩ <;>
      exact actor ▸ kept.quiet
  parks_peer before action after arg admitted taken := by
    change (ends block).parks action.actor.peer _ _ = (ends block).parks action.actor.peer _ _
    rcases ends_step admitted.single taken with ⟨actor, -, kept⟩ | ⟨actor, -, kept⟩
    · simp [actor, Role.peer, ends, kept.readerPc]
    · simp [actor, Role.peer, ends, kept.writerPc, kept.pending]
  mustWait_peer before action after arg admitted taken := by
    change (ends block).mustWait action.actor.peer _ _ = (ends block).mustWait action.actor.peer _ _
    rcases ends_step admitted.single taken with ⟨actor, -, kept⟩ | ⟨actor, -, kept⟩
    · simp [actor, Role.peer, ends, kept.readPos]
    · simp [actor, Role.peer, ends, kept.writePos]
  parked role arg ring parks := by
    cases role with
    | producer =>
      simp only [ends, Bool.and_eq_true, WriterPc.isIdle_iff] at parks
      simp [ends, parks.1.1, WriterPc.bumping]
    | consumer =>
      simp only [ends, ReaderPc.isIdle_iff] at parks
      simp [ends, parks, ReaderPc.bumping]

theorem ends_proceeds (role : Role) (ring : State)
    (publishing : (ends block).publishing role ring = true) :
    (ends block).actor (nextOf role) = role ∧
      ∃ after, (ends block).step ring (nextOf role) = some after ∧
        (ends block).publishing role after = false := by
  cases role with
  | producer =>
    cases here : ring.writerPc <;> simp [ends, here, WriterPc.bumping] at publishing
    all_goals exact ⟨rfl, _, by simp [ends, nextOf, step, writerStep, here]; rfl, rfl⟩
  | consumer =>
    cases here : ring.readerPc <;> simp [ends, here, ReaderPc.bumping] at publishing
    all_goals exact ⟨rfl, _, by simp [ends, nextOf, step, readerStep, here]; rfl, rfl⟩

theorem mustWait_producer {payloadSize : UInt32} {read : UInt64} :
    (ends block).mustWait .producer payloadSize state read = true ↔
      state.writePos - read + (neededFor block payloadSize).toUInt64 > block.dataCapacity := by
  simp [ends]

theorem mustWait_consumer {arg : UInt32} {committed : UInt64} :
    (ends block).mustWait .consumer arg state committed = true ↔ committed ≤ state.readPos := by
  simp [ends]

/-- What is published stays published for the consumer, and room stays room for the
producer. -/
theorem ends_progress (shape : Shape block) :
    Progresses (ends block) (SingleSession block) (Sound block) := by
  rintro before action after payloadSize ⟨slots, inv⟩ admitted taken free
  change (ends block).mustWait action.actor.peer payloadSize before
    ((ends block).front action.actor before) = false at free
  change (ends block).mustWait action.actor.peer payloadSize before
    ((ends block).front action.actor after) = false
  rw [← Bool.not_eq_true] at free ⊢
  have advanced := step_advanced shape inv (admitted.orderly shape) taken
  rcases ends_step admitted.single taken with ⟨actor, -, -⟩ | ⟨actor, -, kept⟩
  · rw [actor, Role.peer, mustWait_consumer] at free ⊢
    intro caught
    exact free (UInt64.le_trans advanced.commitPos caught)
  · rw [actor, Role.peer, mustWait_producer] at free ⊢
    obtain ⟨next, later, -⟩ := inv_step shape inv (admitted.orderly shape) taken
    have small := admitted.unwrapped
    unfold NoWrap at small
    have needed := (neededFor block payloadSize).toNat_lt
    have forward := UInt64.le_iff_toNat_le.mp advanced.readPos
    have ordered := Nat.le_trans inv.front_le inv.committed
    have laterOrdered := Nat.le_trans later.front_le later.committed
    rw [kept.writePos] at laterOrdered
    change ¬ (before.writePos - before.readPos + _ > _) at free
    change ¬ (before.writePos - after.readPos + _ > _)
    rw [room_iff ordered (by omega)] at free
    rw [room_iff laterOrdered (by omega)]
    omega

/-- With nothing outstanding, a ring that is empty has room for every payload it can hold. -/
theorem ends_apart (payloadSize other : UInt32) (ring : State) (sound : Sound block ring)
    (parks : (ends block).parks .producer payloadSize ring = true)
    (full : (ends block).mustWait .producer payloadSize ring ((ends block).front .consumer ring) =
      true) :
    (ends block).mustWait .consumer other ring ((ends block).front .producer ring) = false := by
  obtain ⟨slots, inv⟩ := sound
  simp only [ends, Bool.and_eq_true, WriterPc.isIdle_iff, Bool.not_eq_true',
    decide_eq_true_eq] at parks
  obtain ⟨⟨idle, free⟩, fits⟩ := parks
  have settled := inv.settled idle free
  rw [mustWait_producer] at full
  rw [← Bool.not_eq_true, mustWait_consumer]
  change ¬ ring.commitPos ≤ ring.readPos
  intro empty
  have same : ring.readPos = ring.writePos := by
    rw [settled.equal]
    exact UInt64.le_antisymm (UInt64.le_iff_toNat_le.mpr inv.front_le) empty
  change ring.writePos - ring.readPos + _ > _ at full
  rw [same, UInt64.sub_self, UInt64.zero_add] at full
  exact absurd fits (UInt64.not_le.mpr full)

/-- Runs of the two threads on one ring: one producer session within the contract of
the ring. -/
def Blocking (block : ControlBlock) :
    Channel.State State → Channel.Action Action UInt32 → Channel.State State → Prop :=
  Admitted (SingleSession block)

instance (block : ControlBlock) (before after : Channel.State State)
    (action : Channel.Action Action UInt32) : Decidable (Blocking block before action after) :=
  inferInstanceAs (Decidable (Admitted (SingleSession block) before action after))

theorem ends_fresh {data : Memory} (fresh : block.rbMeta = {}) :
    Fresh (ends block) (Sound block) (initial block data) :=
  ⟨⟨[], inv_initial data (.of_eq fresh)⟩, fun role => by cases role <;> rfl⟩

section Channel

variable {header : ControlBlock} {capacity : UInt64} {alignment itemSize : UInt32}
  {data : Memory} {channel later : Channel.State State}
variable (accepted : initControlBlock header capacity .varlen alignment itemSize = some block)
include accepted

/-- A consumer has nothing to wait for once something is published. -/
theorem ready_of_published
    (reached : (Channel.machine (ends block)).Reachable (Blocking block)
      (Channel.initial (initial block data)) channel)
    (published : channel.ring.readPos < channel.ring.commitPos) :
    Ready (ends block) channel .consumer := by
  obtain ⟨geometry, fresh, -⟩ := initControlBlock_accepted accepted
  obtain ⟨-, parked⟩ := reachable_parked (ends_lawful geometry.toShape) (ends_fresh fresh) reached
  intro call inside
  obtain ⟨-, arg, -, pred⟩ := (parked .consumer).waits call inside
  rw [pred, ← Bool.not_eq_true, mustWait_consumer]
  exact UInt64.not_le.mpr published

variable (reached : (Channel.machine (ends block)).Reachable
  (Machine.Both (Blocking block) (FewBumpsPerWait (ends block)))
  (Channel.initial (initial block data)) channel)
include reached

/-- Producer and consumer are never asleep at the same time, unless a word is bumped through
its whole range inside one wait. -/
theorem varlen_never_both_asleep :
    ¬ ((channel.thread .producer).asleep = true ∧ (channel.thread .consumer).asleep = true) := by
  obtain ⟨geometry, fresh, -⟩ := initControlBlock_accepted accepted
  exact not_both_asleep (ends_lawful geometry.toShape) (ends_fresh fresh) reached ends_apart

/-- A thread inside a wait whose test has turned false is through with it after at most
five steps of its own; until then it can take the next of them, or the next steps of
its peer wake it. -/
theorem varlen_wait_returns (role : Role) {actions : List (Channel.Action Action UInt32)}
    (ready : Ready (ends block) channel role)
    (run : (Channel.machine (ends block)).Run
      (Machine.Both (Continues (SingleSession block) role)
        (FewBumpsPerWait (ends block))) channel actions later) :
    actions.countP (Action.waits role) ≤ 5 ∧
      ((later.thread role).pc = .idle ∨
        (∀ expired, (Channel.step (ends block) later (.waiter role expired)).isSome = true) ∨
        WakesSoon (ends block) nextOf later role) := by
  obtain ⟨geometry, fresh, -⟩ := initControlBlock_accepted accepted
  have shape := geometry.toShape
  exact wait_returns (ends_lawful shape) (ends_progress shape) (ends_fresh fresh) reached
    nextOf ends_proceeds ready run

end Channel

/-- The producer sleeps: the ring of 64 bytes holds one message and has no room for
another. -/
theorem varlen_never_both_asleep_full : ∃ channel,
    (Channel.machine (ends sampleBlock)).Reachable
        (Machine.Both (Blocking sampleBlock) (FewBumpsPerWait (ends sampleBlock)))
        (Channel.initial (initial sampleBlock fun _ => 0)) channel ∧
      (channel.thread .producer).asleep = true ∧ (channel.thread .consumer).asleep = false := by
  obtain ⟨channel, run, asleep⟩ := (Channel.machine (ends sampleBlock)).run_of_replay
    (Machine.Both (Blocking sampleBlock) (FewBumpsPerWait (ends sampleBlock)))
    (Channel.initial (initial sampleBlock fun _ => 0))
    (.ring (.call (write 4 (some fun _ => 7))) :: List.replicate 8 (.ring .writer) ++
      .wait .producer 4 none :: List.replicate 8 (.waiter .producer false))
    (fun channel => (channel.thread .producer).asleep) (by decide +kernel)
  refine ⟨channel, ⟨_, run⟩, asleep, Bool.not_eq_true _ ▸ fun awake => ?_⟩
  exact varlen_never_both_asleep sampleBlock_accepted ⟨_, run⟩ ⟨asleep, awake⟩

/-- The consumer sleeps and the producer has stored `commit_pos` but not bumped. -/
theorem varlen_wait_returns_published : ∃ channel,
    (Channel.machine (ends sampleBlock)).Reachable
        (Machine.Both (Blocking sampleBlock) (FewBumpsPerWait (ends sampleBlock)))
        (Channel.initial (initial sampleBlock fun _ => 0)) channel ∧
      (channel.thread .consumer).asleep = true ∧ channel.ring.readPos < channel.ring.commitPos ∧
      WakesSoon (ends sampleBlock) nextOf channel .consumer := by
  obtain ⟨channel, run, passed⟩ := (Channel.machine (ends sampleBlock)).run_of_replay
    (Machine.Both (Blocking sampleBlock) (FewBumpsPerWait (ends sampleBlock)))
    (Channel.initial (initial sampleBlock fun _ => 0))
    (.wait .consumer 0 none :: List.replicate 8 (.waiter .consumer false) ++
      .ring (.call (write 4 (some fun _ => 7))) :: List.replicate 7 (.ring .writer))
    (fun channel => (channel.thread .consumer).asleep &&
      decide (channel.ring.readPos < channel.ring.commitPos)) (by decide +kernel)
  simp only [Bool.and_eq_true, decide_eq_true_eq] at passed
  obtain ⟨asleep, published⟩ := passed
  have blocking := run.mono fun _ _ _ _ both => both.1
  have ready := ready_of_published sampleBlock_accepted ⟨_, blocking⟩ published
  obtain ⟨-, outcome⟩ := varlen_wait_returns sampleBlock_accepted ⟨_, run⟩ .consumer ready (.done _)
  obtain ⟨inside, stuck⟩ := asleep_stuck asleep false
  rcases outcome with idle | enabled | soon
  · exact absurd idle inside
  · exact absurd (enabled false) (by rw [stuck]; decide)
  · exact ⟨channel, ⟨_, run⟩, asleep, published, soon⟩

end SpscRing.Varlen
