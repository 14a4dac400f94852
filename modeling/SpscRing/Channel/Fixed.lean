import SpscRing.Channel.Response
import SpscRing.Fixed.Occupancy

/-! The fixed-size ring as a blocking channel. -/

namespace SpscRing.Fixed

open SpscRing.Foundation SpscRing.NotifyWord SpscRing.Channel

/-- The front is stored and its word not yet bumped. -/
def WriterPc.bumping : WriterPc → Bool
  | .bumpCommit => true
  | _ => false

def ReaderPc.bumping : ReaderPc → Bool
  | .bumpRead => true
  | _ => false

def Action.actor : Action → Role
  | .call _ | .fill _ _ | .writer | .restart => .producer
  | .read _ | .reader => .consumer

/-- The next access of the call one end is in. -/
def nextOf : Role → Action
  | .producer => .writer
  | .consumer => .reader

/-- The producer waits while `try_reserve` finds the ring full, the consumer while
`try_read` finds it empty; each between two of its calls, the producer with no
reservation outstanding. -/
def ends (block : ControlBlock) : Ends State Action Unit where
  step := step block
  actor := Action.actor
  front
    | .producer, state => state.commitPos
    | .consumer, state => state.readPos
  word
    | .producer, state => state.commitSeq
    | .consumer, state => state.readWakeSeq
  setWord
    | .producer, state, word => { state with commitSeq := word }
    | .consumer, state, word => { state with readWakeSeq := word }
  publishing
    | .producer, state => state.writerPc.bumping
    | .consumer, state => state.readerPc.bumping
  parks
    | .producer, _, state => state.writerPc.isIdle && !state.pending
    | .consumer, _, state => state.readerPc.isIdle
  mustWait
    | .producer, _, state, read =>
      state.writePos % block.dataCapacity == read % block.dataCapacity && state.writePos > read
    | .consumer, _, state, committed => committed ≤ state.readPos

variable {block : ControlBlock} {state before after : State} {action : Action}

section Frames

variable (state : State) (source : Option Source) (write : UInt64)

theorem bumping_beginCommit : state.beginCommit.writerPc.bumping = false := by
  unfold State.beginCommit
  split <;> rfl

theorem bumping_beginReserve : (state.beginReserve source).writerPc.bumping = false := by
  unfold State.beginReserve
  split <;> rfl

theorem bumping_afterReserve : (state.afterReserve source write).writerPc.bumping = false := by
  unfold State.afterReserve
  split
  · rfl
  · split
    · rfl
    · exact bumping_beginCommit state

end Frames

/-- The producer's accesses leave everything of the consumer alone. -/
structure ConsumerKept (before after : State) : Prop where
  readPos : after.readPos = before.readPos
  readWakeSeq : after.readWakeSeq = before.readWakeSeq
  readerPc : after.readerPc = before.readerPc
  slot : after.slot = before.slot

/-- The consumer's accesses leave everything of the producer alone. -/
structure ProducerKept (before after : State) : Prop where
  writePos : after.writePos = before.writePos
  commitPos : after.commitPos = before.commitPos
  commitSeq : after.commitSeq = before.commitSeq
  writerPc : after.writerPc = before.writerPc
  pending : after.pending = before.pending
  reserved : after.reserved = before.reserved
  data : after.data = before.data
  draft : after.log.draft = before.log.draft

theorem ends_acts_writer (taken : writerStep block before = some after) :
    Acts (ends block) .producer before after ∧ ConsumerKept before after := by
  cases here : before.writerPc with
  | idle => simp [writerStep, here] at taken
  | loadWrite source =>
    simp only [writerStep, here, Option.some.injEq] at taken
    subst taken
    exact ⟨.quiet ⟨rfl, rfl, by simp [ends, here, WriterPc.bumping]⟩, ⟨rfl, rfl, rfl, rfl⟩⟩
  | loadRead source write =>
    simp only [writerStep, here] at taken
    split at taken <;> cases taken <;>
      exact ⟨.quiet ⟨rfl, rfl, by simp [ends, here, WriterPc.bumping]⟩, ⟨rfl, rfl, rfl, rfl⟩⟩
  | storeWrite source write =>
    simp only [writerStep, here, Option.some.injEq] at taken
    have still := bumping_afterReserve (before.storeWrite block write) source write
    obtain ⟨pc, quiet⟩ := afterReserve_eq (before.storeWrite block write) source write
    rw [taken] at still quiet
    subst quiet
    exact ⟨.quiet ⟨rfl, rfl, by simpa [ends, here, WriterPc.bumping] using still⟩, ⟨rfl, rfl, rfl, rfl⟩⟩
  | copy source write =>
    simp only [writerStep, here, Option.some.injEq] at taken
    have still := taken ▸ bumping_beginCommit _
    obtain ⟨pc, quiet⟩ := beginCommit_eq { before with
      data := before.data.write (indexOf block write) (source.data.read 0 source.size.toNat)
      log := before.log.fill 0 (source.data.read 0 source.size.toNat) }
    rw [here] at quiet
    rw [taken] at quiet
    subst quiet
    exact ⟨.quiet ⟨rfl, rfl, by simpa [ends, here, WriterPc.bumping] using still⟩, ⟨rfl, rfl, rfl, rfl⟩⟩
  | storeCommit =>
    simp only [writerStep, here, Option.some.injEq] at taken
    subst taken
    exact ⟨.publish (by simp [ends, here, WriterPc.bumping]) rfl rfl, ⟨rfl, rfl, rfl, rfl⟩⟩
  | bumpCommit =>
    simp only [writerStep, here, Option.some.injEq] at taken
    subst taken
    exact ⟨.bump (by simp [ends, here, WriterPc.bumping]) rfl rfl rfl, ⟨rfl, rfl, rfl, rfl⟩⟩

theorem ends_acts_reader (taken : readerStep block before = some after) :
    Acts (ends block) .consumer before after ∧ ProducerKept before after := by
  cases here : before.readerPc with
  | idle => simp [readerStep, here] at taken
  | loadRead size =>
    simp only [readerStep, here, Option.some.injEq] at taken
    subst taken
    exact ⟨.quiet ⟨rfl, rfl, by simp [ends, here, ReaderPc.bumping]⟩, ⟨rfl, rfl, rfl, rfl, rfl, rfl, rfl, rfl⟩⟩
  | loadCommit size read =>
    simp only [readerStep, here] at taken
    split at taken
    · cases taken
      exact ⟨.quiet ⟨rfl, rfl, by simp [ends, here, ReaderPc.bumping]⟩, ⟨rfl, rfl, rfl, rfl, rfl, rfl, rfl, rfl⟩⟩
    · split at taken <;> cases taken <;>
        exact ⟨.quiet ⟨rfl, rfl, by simp [ends, here, ReaderPc.bumping]⟩, ⟨rfl, rfl, rfl, rfl, rfl, rfl, rfl, rfl⟩⟩
  | copyOut size read =>
    simp only [readerStep, here, Option.some.injEq] at taken
    subst taken
    exact ⟨.quiet ⟨rfl, rfl, by simp [ends, here, ReaderPc.bumping]⟩, ⟨rfl, rfl, rfl, rfl, rfl, rfl, rfl, rfl⟩⟩
  | fetchAdd count =>
    simp only [readerStep, here, Option.some.injEq] at taken
    subst taken
    exact ⟨.publish (by simp [ends, here, ReaderPc.bumping]) rfl rfl, ⟨rfl, rfl, rfl, rfl, rfl, rfl, rfl, rfl⟩⟩
  | bumpRead =>
    simp only [readerStep, here, Option.some.injEq] at taken
    subst taken
    exact ⟨.bump (by simp [ends, here, ReaderPc.bumping]) rfl rfl rfl, ⟨rfl, rfl, rfl, rfl, rfl, rfl, rfl, rfl⟩⟩

/-- What the other end can see of a step, apart from a restart. -/
theorem ends_step (single : action ≠ .restart) (taken : step block before action = some after) :
    (action.actor = .producer ∧ Acts (ends block) .producer before after ∧
      ConsumerKept before after) ∨
    (action.actor = .consumer ∧ Acts (ends block) .consumer before after ∧
      ProducerKept before after) := by
  cases action with
  | call call =>
    refine .inl ⟨rfl, ?_⟩
    simp only [step] at taken
    split at taken
    · rename_i idle
      cases taken
      have still := bumping_beginReserve before none
      obtain ⟨pc, reserved, quiet⟩ := beginReserve_eq before none
      rw [quiet] at still ⊢
      exact ⟨.quiet ⟨rfl, rfl, by simpa [ends, idle, WriterPc.bumping] using still⟩, ⟨rfl, rfl, rfl, rfl⟩⟩
    · rename_i data size idle
      cases taken
      have still := bumping_beginReserve before (some ⟨data, size⟩)
      obtain ⟨pc, reserved, quiet⟩ := beginReserve_eq before (some ⟨data, size⟩)
      rw [quiet] at still ⊢
      exact ⟨.quiet ⟨rfl, rfl, by simpa [ends, idle, WriterPc.bumping] using still⟩, ⟨rfl, rfl, rfl, rfl⟩⟩
    · rename_i idle
      cases taken
      have still := bumping_beginCommit before
      obtain ⟨pc, quiet⟩ := beginCommit_eq before
      rw [quiet] at still ⊢
      exact ⟨.quiet ⟨rfl, rfl, by simpa [ends, idle, WriterPc.bumping] using still⟩, ⟨rfl, rfl, rfl, rfl⟩⟩
    · cases taken
  | fill offset bytes =>
    simp only [step] at taken
    split at taken
    · split at taken
      · cases taken
        exact .inl ⟨rfl, .quiet ⟨rfl, rfl, rfl⟩, ⟨rfl, rfl, rfl, rfl⟩⟩
      · cases taken
    · cases taken
  | writer => exact .inl ⟨rfl, ends_acts_writer taken⟩
  | restart => exact absurd rfl single
  | read call =>
    simp only [step] at taken
    split at taken
    · rename_i idle
      cases taken
      exact .inr ⟨rfl, .quiet ⟨rfl, rfl, by simp [ends, idle, ReaderPc.bumping]⟩,
        ⟨rfl, rfl, rfl, rfl, rfl, rfl, rfl, rfl⟩⟩
    · rename_i idle
      cases taken
      exact .inr ⟨rfl, .quiet ⟨rfl, rfl, by simp [ends, idle, ReaderPc.bumping]⟩,
        ⟨rfl, rfl, rfl, rfl, rfl, rfl, rfl, rfl⟩⟩
    · rename_i idle
      cases taken
      exact .inr ⟨rfl, .quiet ⟨rfl, rfl, by simp [ends, idle, ReaderPc.bumping]⟩,
        ⟨rfl, rfl, rfl, rfl, rfl, rfl, rfl, rfl⟩⟩
    · cases taken
  | reader => exact .inr ⟨rfl, ends_acts_reader taken⟩

/-- Whatever the producer does, a restart included, leaves the consumer alone. -/
theorem consumerKept_of_actor (acts : action.actor = .producer)
    (taken : step block before action = some after) : ConsumerKept before after := by
  by_cases restarted : action = .restart
  · subst restarted
    cases taken
    exact ⟨rfl, rfl, rfl, rfl⟩
  · rcases ends_step restarted taken with ⟨-, -, kept⟩ | ⟨other, -⟩
    · exact kept
    · rw [acts] at other
      cases other

theorem producerKept_of_actor (acts : action.actor = .consumer)
    (taken : step block before action = some after) : ProducerKept before after := by
  have single : action ≠ .restart := by
    rintro rfl
    cases acts
  rcases ends_step single taken with ⟨other, -⟩ | ⟨-, -, kept⟩
  · rw [acts] at other
    cases other
  · exact kept

theorem ConsumerKept.quiet (kept : ConsumerKept before after) :
    Quiet (ends block) .consumer before after :=
  ⟨kept.readPos, kept.readWakeSeq, congrArg ReaderPc.bumping kept.readerPc⟩

theorem ProducerKept.quiet (kept : ProducerKept before after) :
    Quiet (ends block) .producer before after :=
  ⟨kept.commitPos, kept.commitSeq, congrArg WriterPc.bumping kept.writerPc⟩

/-- The invariant does not depend on the notify words. -/
theorem Inv.setWord (inv : Inv block state) (role : Role) (word : UInt32) :
    Inv block ((ends block).setWord role state word) := by
  cases role with
  | consumer => exact inv.look state.readerPc inv.reader
  | producer =>
    refine { inv with fronts := { inv.fronts with }, writer := ?_ }
    have writer := inv.writer
    change WriterOk block { state with commitSeq := word }
    cases here : state.writerPc with
    | idle =>
      simp only [WriterOk, here] at writer ⊢
      rcases writer with settled | outstanding
      · exact .inl { settled with }
      · exact .inr { outstanding with }
    | loadWrite _ | loadRead _ _ | storeWrite _ _ | copy _ _ =>
      simp only [WriterOk, here] at writer ⊢
      exact ⟨{ writer.1 with }, writer.2⟩
    | storeCommit | bumpCommit =>
      simp only [WriterOk, here] at writer ⊢
      exact { writer with }

theorem ends_lawful (geometry : FixedGeometry block) :
    Lawful (ends block) (SingleSession block) (Inv block) where
  word_setWord role ring word := by cases role <;> rfl
  peer_setWord role ring word := by cases role <;> exact ⟨rfl, rfl, rfl⟩
  front_setWord role ring word := by cases role <;> rfl
  publishing_setWord role ring word := by cases role <;> rfl
  parks_setWord self role arg ring word := by cases self <;> cases role <;> rfl
  mustWait_setWord self role arg ring word := by cases self <;> cases role <;> rfl
  sound_setWord role ring word inv := inv.setWord role word
  sound_step before action after inv admitted taken := inv_step geometry inv admitted taken
  acts before action after admitted taken := by
    change Acts _ action.actor _ _
    rcases ends_step admitted.single taken with ⟨actor, acts, -⟩ | ⟨actor, acts, -⟩ <;>
      exact actor ▸ acts
  leaves before action after admitted taken := by
    change Quiet _ action.actor.peer _ _
    rcases ends_step admitted.single taken with ⟨actor, -, kept⟩ | ⟨actor, -, kept⟩ <;>
      exact actor ▸ kept.quiet
  parks_peer before action after arg admitted taken := by
    change (ends block).parks action.actor.peer _ _ = (ends block).parks action.actor.peer _ _
    rcases ends_step admitted.single taken with ⟨actor, -, kept⟩ | ⟨actor, -, kept⟩
    · simp [actor, Role.peer, ends, kept.readerPc]
    · simp [actor, Role.peer, ends, kept.writerPc, kept.pending]
  mustWait_peer before action after arg admitted taken := by
    change (ends block).mustWait action.actor.peer _ _ = (ends block).mustWait action.actor.peer _ _
    rcases ends_step admitted.single taken with ⟨actor, -, kept⟩ | ⟨actor, -, kept⟩
    · simp [actor, Role.peer, ends, kept.readPos]
    · simp [actor, Role.peer, ends, kept.writePos]
  parked role arg ring parks := by
    cases role with
    | producer =>
      simp only [ends, Bool.and_eq_true, WriterPc.isIdle_iff] at parks
      simp [ends, parks.1, WriterPc.bumping]
    | consumer =>
      simp only [ends, ReaderPc.isIdle_iff] at parks
      simp [ends, parks, ReaderPc.bumping]

theorem ends_proceeds (role : Role) (ring : State)
    (publishing : (ends block).publishing role ring = true) :
    (ends block).actor (nextOf role) = role ∧ ∃ after, (ends block).step ring (nextOf role) = some after ∧
      (ends block).publishing role after = false := by
  cases role with
  | producer =>
    cases here : ring.writerPc <;> simp [ends, here, WriterPc.bumping] at publishing
    exact ⟨rfl, _, by simp [ends, nextOf, step, writerStep, here]; rfl, rfl⟩
  | consumer =>
    cases here : ring.readerPc <;> simp [ends, here, ReaderPc.bumping] at publishing
    exact ⟨rfl, _, by simp [ends, nextOf, step, readerStep, here]; rfl, rfl⟩

/-- A commit publishes what was reserved, so the published front never moves back. -/
theorem writerStep_commitPos (inv : Inv block before) (taken : writerStep block before = some after) :
    before.commitPos ≤ after.commitPos := by
  cases here : before.writerPc with
  | idle => simp [writerStep, here] at taken
  | loadRead _ _ =>
    simp only [writerStep, here] at taken
    split at taken <;> cases taken <;> exact UInt64.le_refl _
  | storeWrite source write =>
    simp only [writerStep, here] at taken
    cases taken
    obtain ⟨pc, quiet⟩ := afterReserve_eq (before.storeWrite block write) source write
    rw [quiet]
    exact UInt64.le_refl _
  | copy source write =>
    simp only [writerStep, here] at taken
    cases taken
    obtain ⟨pc, quiet⟩ := beginCommit_eq _
    rw [quiet]
    exact UInt64.le_refl _
  | loadWrite _ | bumpCommit =>
    simp only [writerStep, here] at taken
    cases taken
    exact UInt64.le_refl _
  | storeCommit =>
    have outstanding := inv.writer
    simp only [WriterOk, here] at outstanding
    simp only [writerStep, here, Option.some.injEq] at taken
    subst taken
    rw [UInt64.le_iff_toNat_le, outstanding.stop]
    exact inv.fronts.published

theorem step_commitPos (inv : Inv block before) (taken : step block before action = some after) :
    before.commitPos ≤ after.commitPos := by
  rcases step_cases taken with ⟨_, _, _, _, rfl⟩ | written | ⟨-, rfl⟩ | ⟨_, rfl⟩ | read
  · exact UInt64.le_refl _
  · exact writerStep_commitPos inv written
  · exact UInt64.le_refl _
  · exact UInt64.le_refl _
  · exact UInt64.le_of_eq (readerStep_frame inv.reader read).commitPos.symm

/-- The test of `try_reserve`, as the producer waits on it. -/
theorem mustWait_producer {read : UInt64} : (ends block).mustWait .producer () state read = true ↔
    state.writePos % block.dataCapacity = read % block.dataCapacity ∧ state.writePos > read := by
  simp [ends]

theorem mustWait_consumer {committed : UInt64} :
    (ends block).mustWait .consumer () state committed = true ↔ committed ≤ state.readPos := by
  simp [ends]

/-- Whatever the fronts do, a message that is there stays there for the consumer, and
room stays room for the producer. -/
theorem ends_progress (geometry : FixedGeometry block) :
    Progresses (ends block) (SingleSession block) (Inv block) := by
  rintro before action after ⟨⟩ inv admitted taken free
  change (ends block).mustWait action.actor.peer () before ((ends block).front action.actor before) =
    false at free
  change (ends block).mustWait action.actor.peer () before ((ends block).front action.actor after) =
    false
  rw [← Bool.not_eq_true] at free ⊢
  rcases ends_step admitted.single taken with ⟨actor, -, -⟩ | ⟨actor, -, kept⟩
  · rw [actor, Role.peer, mustWait_consumer] at free ⊢
    have forward := step_commitPos inv taken
    intro caught
    exact free (UInt64.le_trans forward caught)
  · rw [actor, Role.peer, mustWait_producer] at free ⊢
    have forward := UInt64.le_iff_toNat_le.mp (step_readPos inv.reader taken)
    have later := (inv_step geometry inv admitted taken).fronts
    have bounded := inv.fronts.bounded
    have ordered := Nat.le_trans inv.fronts.consumed inv.fronts.published
    have laterOrdered := Nat.le_trans later.consumed later.published
    change ¬ (before.writePos % block.dataCapacity = after.readPos % block.dataCapacity ∧
      before.writePos > after.readPos)
    rw [← kept.writePos, full_iff geometry later, ← UInt64.toNat_inj, toNat_sub laterOrdered,
      kept.writePos]
    change ¬ (before.writePos % block.dataCapacity = before.readPos % block.dataCapacity ∧
      before.writePos > before.readPos) at free
    rw [full_iff geometry inv.fronts, ← UInt64.toNat_inj, toNat_sub ordered] at free
    rw [kept.writePos] at laterOrdered
    omega

/-- With nothing outstanding, a full ring is not empty. -/
theorem ends_apart (geometry : FixedGeometry block) (arg other : Unit) (ring : State)
    (inv : Inv block ring) (parks : (ends block).parks .producer arg ring = true)
    (full : (ends block).mustWait .producer arg ring ((ends block).front .consumer ring) = true) :
    (ends block).mustWait .consumer other ring ((ends block).front .producer ring) = false := by
  simp only [ends, Bool.and_eq_true, WriterPc.isIdle_iff, Bool.not_eq_true'] at parks
  have settled := inv.settled parks.1 parks.2
  have lapped := (full_iff geometry inv.fronts).mp (mustWait_producer.mp full)
  rw [← Bool.not_eq_true, mustWait_consumer]
  change ¬ ring.commitPos ≤ ring.readPos
  intro empty
  have ordered := Nat.le_trans inv.fronts.consumed inv.fronts.published
  have behind := UInt64.le_iff_toNat_le.mp empty
  have positive := geometry.capacity
  rw [← UInt64.toNat_inj, toNat_sub ordered, settled.equal] at lapped
  omega

/-- Runs of the two threads on one ring: one producer session within the contract of
the ring. -/
def Blocking (block : ControlBlock) :
    Channel.State State → Channel.Action Action Unit → Channel.State State → Prop :=
  Admitted (SingleSession block)

theorem ends_fresh {data : Memory} (fresh : block.rbMeta = {}) :
    Fresh (ends block) (Inv block) (initial block data) :=
  ⟨inv_initial data fresh, fun role => by cases role <;> rfl⟩

instance (block : ControlBlock) (before after : Channel.State State)
    (action : Channel.Action Action Unit) : Decidable (Blocking block before action after) :=
  inferInstanceAs (Decidable (Admitted (SingleSession block) before action after))

/-- What an end waits for is there: a published message, a free slot. -/
def Available (block : ControlBlock) (state : State) : Role → Prop
  | .consumer => state.readPos < state.commitPos
  | .producer => state.writePos - state.readPos ≠ block.dataCapacity

section Channel

variable {data : Memory} {channel later : Channel.State State}
variable (valid : isValidFixedRing block = true) (fresh : block.rbMeta = {})
include valid fresh

theorem ready_of_available {role : Role}
    (reached : (Channel.machine (ends block)).Reachable (Blocking block)
      (Channel.initial (initial block data)) channel)
    (available : Available block channel.ring role) : Ready (ends block) channel role := by
  have geometry := fixedGeometry_of_valid valid
  obtain ⟨inv, parked⟩ := reachable_parked (ends_lawful geometry) (ends_fresh fresh) reached
  intro call inside
  obtain ⟨-, ⟨⟩, -, pred⟩ := (parked role).waits call inside
  rw [pred, ← Bool.not_eq_true]
  cases role with
  | consumer =>
    rw [mustWait_consumer]
    exact UInt64.not_le.mpr available
  | producer =>
    rw [mustWait_producer]
    exact mt (full_iff geometry inv.fronts).mp available

variable (reached : (Channel.machine (ends block)).Reachable
  (Machine.Both (Blocking block) (FewBumpsPerWait (ends block)))
  (Channel.initial (initial block data)) channel)
include reached

/-- Producer and consumer are never asleep at the same time, unless a word is bumped through
its whole range inside one wait. -/
theorem fixed_never_both_asleep :
    ¬ ((channel.thread .producer).asleep = true ∧ (channel.thread .consumer).asleep = true) := by
  have geometry := fixedGeometry_of_valid valid
  exact not_both_asleep (ends_lawful geometry) (ends_fresh fresh) reached (ends_apart geometry)

/-- A consumer that waits although a message is published, or a producer that waits
although a slot is free, is through with its wait after at most five steps of its own;
until then it can take the next of them, or the next steps of its peer wake it. -/
theorem fixed_wait_returns (role : Role) {actions : List (Channel.Action Action Unit)}
    (available : Available block channel.ring role)
    (run : (Channel.machine (ends block)).Run
      (Machine.Both (Continues (SingleSession block) role)
        (FewBumpsPerWait (ends block))) channel actions later) :
    actions.countP (Action.waits role) ≤ 5 ∧
      ((later.thread role).pc = .idle ∨
        (∀ expired, (Channel.step (ends block) later (.waiter role expired)).isSome = true) ∨
        WakesSoon (ends block) nextOf later role) := by
  have geometry := fixedGeometry_of_valid valid
  have ready := ready_of_available valid fresh (reached.mono fun _ _ _ both => both.1) available
  exact wait_returns (ends_lawful geometry) (ends_progress geometry) (ends_fresh fresh) reached
    nextOf ends_proceeds ready run

end Channel

/-- The consumer sleeps on an empty ring of two slots. -/
theorem fixed_never_both_asleep_empty : ∃ channel,
    (Channel.machine (ends sampleBlock)).Reachable
        (Machine.Both (Blocking sampleBlock) (FewBumpsPerWait (ends sampleBlock)))
        (Channel.initial (initial sampleBlock fun _ => 0)) channel ∧
      (channel.thread .consumer).asleep = true ∧ (channel.thread .producer).asleep = false := by
  obtain ⟨channel, run, asleep⟩ := (Channel.machine (ends sampleBlock)).run_of_replay
    (Machine.Both (Blocking sampleBlock) (FewBumpsPerWait (ends sampleBlock)))
    (Channel.initial (initial sampleBlock fun _ => 0))
    (.wait .consumer () none :: List.replicate 8 (.waiter .consumer false))
    (fun channel => (channel.thread .consumer).asleep) (by decide +kernel)
  refine ⟨channel, ⟨_, run⟩, asleep, Bool.not_eq_true _ ▸ fun awake => ?_⟩
  exact fixed_never_both_asleep (by decide) rfl ⟨_, run⟩ ⟨awake, asleep⟩

/-- The consumer sleeps and the producer has stored `commit_pos` but not bumped. -/
theorem fixed_wait_returns_published : ∃ channel,
    (Channel.machine (ends sampleBlock)).Reachable
        (Machine.Both (Blocking sampleBlock) (FewBumpsPerWait (ends sampleBlock)))
        (Channel.initial (initial sampleBlock fun _ => 0)) channel ∧
      (channel.thread .consumer).asleep = true ∧ Available sampleBlock channel.ring .consumer ∧
      WakesSoon (ends sampleBlock) nextOf channel .consumer := by
  obtain ⟨channel, run, passed⟩ := (Channel.machine (ends sampleBlock)).run_of_replay
    (Machine.Both (Blocking sampleBlock) (FewBumpsPerWait (ends sampleBlock)))
    (Channel.initial (initial sampleBlock fun _ => 0))
    (.wait .consumer () none :: List.replicate 8 (.waiter .consumer false) ++
      .ring (.call (.write (fun _ => 7) 16)) :: List.replicate 5 (.ring .writer))
    (fun channel => (channel.thread .consumer).asleep &&
      decide (channel.ring.readPos < channel.ring.commitPos)) (by decide +kernel)
  simp only [Bool.and_eq_true, decide_eq_true_eq] at passed
  obtain ⟨asleep, available⟩ := passed
  obtain ⟨-, outcome⟩ := fixed_wait_returns (by decide) rfl ⟨_, run⟩ .consumer available (.done _)
  obtain ⟨inside, stuck⟩ := asleep_stuck asleep false
  rcases outcome with idle | enabled | soon
  · exact absurd idle inside
  · exact absurd (enabled false) (by rw [stuck]; decide)
  · exact ⟨channel, ⟨_, run⟩, asleep, available, soon⟩

end SpscRing.Fixed
