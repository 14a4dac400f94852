import SpscRing.ThreadChannel.Draining

/-! How `run_fixed_channel` can end. The consumer leaves when it has found the ring empty
and then finds the flag set; what the producer publishes between these two loads stays
in the ring. -/

namespace SpscRing.FixedChannel

open SpscRing.Foundation SpscRing.Fixed

variable {block : ControlBlock} {messages : UInt64} {channel : Channel}

/-- Where the consumer rests in each phase of the stream. -/
def restingAt : Drain.Phase → ConsumerPc
  | .polling => .tryRead
  | .foundEmpty => .testDone
  | .left => .left

/-- A channel between two calls of either thread. -/
structure Rests (block : ControlBlock) (messages : UInt64) (channel : Channel)
    (stream : Drain.Stream) : Prop where
  streaming : Streaming block messages channel
  sent : channel.sent.toNat = stream.sent
  drained : channel.drained.toNat = stream.taken
  done : channel.done = stream.closed
  producer : channel.producer = if stream.closed then .join else .test
  consumer : channel.consumer = restingAt stream.phase

section Runs

variable {stream : Drain.Stream} (rests : Rests block messages channel stream)
include rests

theorem Rests.consumer_idle : channel.ring.readerPc = .idle := by
  have kind := rests.streaming.consumer
  rw [rests.consumer] at kind
  cases here : stream.phase <;> simpa [here, restingAt, ConsumerOk] using kind

theorem Rests.producer_idle : channel.ring.writerPc = .idle := by
  have kind := rests.streaming.producer
  rw [rests.producer] at kind
  cases here : stream.closed <;> simp only [here, ProducerOk] at kind <;> exact kind.1

theorem Rests.published : channel.published = channel.sent.toNat := by
  unfold Channel.published
  rw [rests.producer]
  cases stream.closed <;> rfl

theorem Rests.consumed : channel.consumed = channel.drained.toNat := by
  unfold Channel.consumed
  rw [rests.consumer]
  cases stream.phase <;> rfl

theorem Rests.commitPos :
    channel.ring.commitPos.toNat = (itemSize block).toNat * channel.sent.toNat := by
  rw [rests.streaming.commitPos, rests.published]

theorem Rests.readPos :
    channel.ring.readPos.toNat = (itemSize block).toNat * channel.drained.toNat := by
  rw [rests.streaming.readPos, rests.consumed]

theorem Rests.ordered (geometry : FixedGeometry block) :
    channel.drained.toNat ≤ channel.sent.toNat := by
  have ordered := rests.streaming.inv.fronts.consumed
  rw [rests.readPos, rests.commitPos] at ordered
  exact Nat.le_of_mul_le_mul_left ordered geometry.positive

/-- From the test of its loop the producer sends one frame into a ring that is not full. -/
theorem Rests.send (fitting : Fitting block messages) (opened : stream.closed = false)
    (more : stream.sent < messages.toNat) (room : stream.sent < stream.taken + itemCount block) :
    ∃ ring, (machine block messages).Reachable Machine.Always channel
      { channel with ring, sent := channel.sent + 1, producer := .test } := by
  have here : channel.producer = .test := by simpa [opened] using rests.producer
  have kind := rests.streaming.producer
  simp only [ProducerOk, here] at kind
  obtain ⟨idle, free, -⟩ := kind
  have below : channel.sent < messages := UInt64.lt_iff_toNat_lt.mpr (rests.sent ▸ more)
  have notFull : ¬ (channel.ring.writePos % block.dataCapacity =
      channel.ring.readPos % block.dataCapacity ∧ channel.ring.writePos > channel.ring.readPos) := by
    intro full
    have lap := congrArg UInt64.toNat ((full_iff fitting.geometry rests.streaming.inv.fronts).mp full)
    have fronts := rests.streaming.inv.fronts
    rw [toNat_sub (Nat.le_trans fronts.consumed fronts.published),
      writePos_of_free rests.streaming.inv free, rests.commitPos, rests.readPos, ← Nat.mul_sub] at lap
    have count : itemCount block = channel.sent.toNat - channel.drained.toNat := by
      rw [itemCount, UInt64.toNat_div, ← lap, Nat.mul_div_cancel_left _ fitting.geometry.positive]
    have ordered := rests.ordered fitting.geometry
    have sent := rests.sent
    have taken := rests.drained
    omega
  have fits : 0 + (bytesU64 channel.sent).length ≤ (itemSize block).toNat := by
    simpa using fitting.tagged
  have begun : (machine block messages).step channel .producer = some
      { channel with
        ring := { channel.ring with writerPc := .loadWrite none }, producer := .reserving } := by
    simp [machine, channelStep, producerStep, here, below, step, idle, State.beginReserve, free]
  have tested : (machine block messages).step { channel with
        ring := { channel.ring with writerPc := .loadRead none channel.ring.writePos }
        producer := .reserving } .producer = some { channel with
        ring := { channel.ring with writerPc := .storeWrite none channel.ring.writePos }
        producer := .reserving } := by
    simp only [machine, channelStep, producerStep, WriterPc.isIdle, step, writerStep]
    rw [if_neg notFull]
    rfl
  have filled (ring : Fixed.State) (returned : ring.writerPc = .idle)
      (guarded : ring.pending = true) :
      (machine block messages).step { channel with ring, producer := .fill } .producer = some
        { channel with ring := ring.fill block 0 (bytesU64 channel.sent), producer := .commit } := by
    simp only [machine, channelStep, producerStep, step, returned]
    rw [if_pos ⟨guarded, fits⟩]
    rfl
  exact ⟨_, List.replicate 10 .producer, .next begun trivial (.next rfl trivial (.next tested trivial
    (.next rfl trivial (.next rfl trivial (.next (filled _ rfl rfl) trivial (.next rfl trivial
      (.next rfl trivial (.next rfl trivial (.next rfl trivial (.done _))))))))))⟩

/-- After its last frame the producer leaves its loop and sets the flag. -/
theorem Rests.close (opened : stream.closed = false) (all : stream.sent = messages.toNat) :
    (machine block messages).Reachable Machine.Always channel
      { channel with done := true, producer := .join } := by
  have here : channel.producer = .test := by simpa [opened] using rests.producer
  have last : ¬ channel.sent < messages := by
    rw [UInt64.lt_iff_toNat_lt, rests.sent]
    omega
  have tested : (machine block messages).step channel .producer = some
      { channel with producer := .storeDone } := by
    simp [machine, channelStep, producerStep, here, last]
  exact ⟨[.producer, .producer], .next tested trivial (.next rfl trivial (.done _))⟩

/-- The consumer looks into the ring and finds its front published. -/
theorem Rests.take (fitting : Fitting block messages) (polling : stream.phase = .polling)
    (unread : stream.taken < stream.sent) :
    ∃ ring mismatches, (machine block messages).Reachable Machine.Always channel
      { channel with ring, mismatches, drained := channel.drained + 1, consumer := .tryRead } := by
  have here : channel.consumer = .tryRead := by simpa [polling, restingAt] using rests.consumer
  have idle := rests.consumer_idle
  have ahead : ¬ channel.ring.commitPos ≤ channel.ring.readPos := by
    rw [UInt64.le_iff_toNat_le, rests.commitPos, rests.readPos, rests.sent, rests.drained]
    intro behind
    have back := Nat.le_of_mul_le_mul_left behind fitting.geometry.positive
    omega
  have begun : (machine block messages).step channel .consumer = some
      { channel with
        ring := { channel.ring with readerPc := .loadRead none }, consumer := .reading } := by
    simp [machine, channelStep, consumerStep, here, step, idle]
  have looked : (machine block messages).step { channel with
        ring := { channel.ring with readerPc := .loadCommit none channel.ring.readPos }
        consumer := .reading } .consumer = some { channel with
        ring := { channel.ring with
          slot := some (indexOf block channel.ring.readPos)
          outSize := (itemSize block).toUInt32
          readerPc := .idle
          log := channel.ring.log.view channel.ring.readPos }
        consumer := .reading } := by
    simp only [machine, channelStep, consumerStep, ReaderPc.isIdle, step, readerStep]
    rw [if_neg ahead]
    rfl
  exact ⟨_, _, List.replicate 8 .consumer, .next begun trivial (.next rfl trivial (.next looked trivial
    (.next rfl trivial (.next rfl trivial (.next rfl trivial (.next rfl trivial (.next rfl trivial
      (.done _))))))))⟩

/-- The consumer looks into the ring and finds nothing published. -/
theorem Rests.look (polling : stream.phase = .polling) (level : stream.taken = stream.sent) :
    ∃ ring, (machine block messages).Reachable Machine.Always channel
      { channel with ring, consumer := .testDone } := by
  have here : channel.consumer = .tryRead := by simpa [polling, restingAt] using rests.consumer
  have idle := rests.consumer_idle
  have empty : channel.ring.commitPos ≤ channel.ring.readPos := by
    rw [UInt64.le_iff_toNat_le, rests.commitPos, rests.readPos, rests.sent, rests.drained, level]
  have begun : (machine block messages).step channel .consumer = some
      { channel with
        ring := { channel.ring with readerPc := .loadRead none }, consumer := .reading } := by
    simp [machine, channelStep, consumerStep, here, step, idle]
  have looked : (machine block messages).step { channel with
        ring := { channel.ring with readerPc := .loadCommit none channel.ring.readPos }
        consumer := .reading } .consumer = some { channel with
        ring := { channel.ring with slot := none, readerPc := .idle }
        consumer := .reading } := by
    simp only [machine, channelStep, consumerStep, ReaderPc.isIdle, step, readerStep]
    rw [if_pos empty]
    rfl
  exact ⟨_, List.replicate 4 .consumer, .next begun trivial (.next rfl trivial (.next looked trivial
    (.next rfl trivial (.done _))))⟩

/-- The flag is not set: the consumer waits and looks again. -/
theorem Rests.again (found : stream.phase = .foundEmpty) (opened : stream.closed = false) :
    (machine block messages).Reachable Machine.Always channel
      { channel with consumer := .tryRead } := by
  have here : channel.consumer = .testDone := by simpa [found, restingAt] using rests.consumer
  have running : channel.done = false := rests.done.trans opened
  have tested : (machine block messages).step channel .consumer = some
      { channel with consumer := .loadSeq } := by
    simp [machine, channelStep, consumerStep, here, running]
  exact ⟨List.replicate 3 .consumer,
    .next tested trivial (.next rfl trivial (.next rfl trivial (.done _)))⟩

theorem Rests.leave (found : stream.phase = .foundEmpty) (closed : stream.closed = true) :
    (machine block messages).Reachable Machine.Always channel { channel with consumer := .left } := by
  have here : channel.consumer = .testDone := by simpa [found, restingAt] using rests.consumer
  have closing : channel.done = true := rests.done.trans closed
  have tested : (machine block messages).step channel .consumer = some
      { channel with consumer := .left } := by
    simp [machine, channelStep, consumerStep, here, closing]
  exact ⟨_, .next tested trivial (.done _)⟩

/-- Every step of the stream is a run of the two threads. -/
theorem Rests.matched (fitting : Fitting block messages) {event : Drain.Event}
    {after : Drain.Stream}
    (taken : Drain.step (itemCount block) messages.toNat stream event = some after) :
    ∃ next, (machine block messages).Reachable Machine.Always channel next ∧
      Rests block messages next after := by
  have lasting {next : Channel}
      (reached : (machine block messages).Reachable Machine.Always channel next) :
      Streaming block messages next :=
    reached.invariant (Streaming block messages) rests.streaming
      fun _ _ _ streaming _ taken => (carries_step fitting streaming taken).streaming
  cases event <;> simp only [Drain.step] at taken <;> split at taken <;> cases taken
  case send allowed =>
    obtain ⟨opened, more, room⟩ := allowed
    obtain ⟨ring, reached⟩ := rests.send fitting opened more room
    refine ⟨_, reached, lasting reached, ?_, rests.drained, rests.done, ?_, rests.consumer⟩
    · rw [← rests.sent]
      exact toNat_succ (UInt64.lt_iff_toNat_lt.mpr (rests.sent ▸ more))
    · simp [opened]
  case close allowed =>
    have reached := rests.close allowed.1 allowed.2
    exact ⟨_, reached, lasting reached, rests.sent, rests.drained, rfl, rfl, rests.consumer⟩
  case take allowed =>
    obtain ⟨polling, unread⟩ := allowed
    obtain ⟨ring, mismatches, reached⟩ := rests.take fitting polling unread
    refine ⟨_, reached, lasting reached, rests.sent, ?_, rests.done, rests.producer, ?_⟩
    · rw [← rests.drained]
      rw [← rests.drained, ← rests.sent] at unread
      exact toNat_succ (UInt64.lt_iff_toNat_lt.mpr unread)
    · simp [polling, restingAt]
  case look allowed =>
    obtain ⟨polling, level⟩ := allowed
    obtain ⟨ring, reached⟩ := rests.look polling level
    exact ⟨_, reached, lasting reached, rests.sent, rests.drained, rests.done, rests.producer, rfl⟩
  case again allowed =>
    have reached := rests.again allowed.1 allowed.2
    exact ⟨_, reached, lasting reached, rests.sent, rests.drained, rests.done, rests.producer, rfl⟩
  case leave allowed =>
    have reached := rests.leave allowed.1 allowed.2
    exact ⟨_, reached, lasting reached, rests.sent, rests.drained, rests.done, rests.producer, rfl⟩

end Runs

theorem fitting_of_valid (valid : isValidFixedRing block = true)
    (tagged : 8 ≤ block.fixedItemSize.toNat)
    (small : block.fixedItemSize.toNat * messages.toNat + block.dataCapacity.toNat < 2 ^ 63) :
    Fitting block messages := by
  have size : (itemSize block).toNat = block.fixedItemSize.toNat := UInt32.toNat_toUInt64 _
  refine ⟨fixedGeometry_of_valid valid, ?_, ?_⟩
  · rw [size]
    exact tagged
  · rw [size]
    exact small

theorem itemCount_pos (geometry : FixedGeometry block) : 0 < itemCount block := by
  rw [itemCount, UInt64.toNat_div]
  exact Nat.div_pos (Nat.le_of_dvd geometry.capacity geometry.divides) geometry.positive

/-- The ways `run_fixed_channel` can end, over all interleavings of its two threads: no
frame is ever out of order, and the consumer has drained all frames but any number of
the last ones up to a full ring. -/
theorem fixed_channel_outcomes (block : ControlBlock) (data : Memory)
    (messages drained mismatches : UInt64) (valid : isValidFixedRing block = true)
    (fresh : block.rbMeta = {}) (tagged : 8 ≤ block.fixedItemSize.toNat)
    (small : block.fixedItemSize.toNat * messages.toNat + block.dataCapacity.toNat < 2 ^ 63) :
    (∃ channel, (machine block messages).Reachable Machine.Always (initial block data) channel ∧
      channel.consumer = .left ∧ channel.drained = drained ∧ channel.mismatches = mismatches) ↔
    mismatches = 0 ∧ drained ≤ messages ∧
      messages.toNat ≤ drained.toNat + itemCount block := by
  have fitting : Fitting block messages := fitting_of_valid valid tagged small
  constructor
  · rintro ⟨channel, reached, left, rfl, rfl⟩
    have streaming := reachable_streaming fitting fresh reached
    have bounds := Drain.left_bounds (reachable_stream fitting fresh reached)
      (by simp [Channel.stream, Channel.phase, left])
    simp only [Channel.stream, Channel.consumed, left] at bounds
    exact ⟨streaming.matched, UInt64.le_iff_toNat_le.mpr bounds.1, bounds.2⟩
  · rintro ⟨rfl, within, bounded⟩
    have initially : Rests block messages (initial block data) {} :=
      ⟨streaming_initial data fresh, rfl, rfl, rfl, rfl, rfl⟩
    have emptied := Drain.left_reachable (itemCount_pos fitting.geometry)
      (UInt64.le_iff_toNat_le.mp within) bounded
    obtain ⟨channel, reached, rests⟩ : ∃ channel,
        (machine block messages).Reachable Machine.Always (initial block data) channel ∧
          Rests block messages channel ⟨messages.toNat, drained.toNat, true, .left⟩ :=
      emptied.realised (Rests block messages)
        (fun _ _ _ _ rests _ taken => Rests.matched rests fitting taken) initially
    exact ⟨channel, reached, rests.consumer, UInt64.toNat_inj.mp rests.drained,
      rests.streaming.matched⟩

/-- The ring of the example: sixteen frames of 64 bytes. -/
def exampleBlock : ControlBlock where
  magic := expectedMagic
  versionMajor := versionMajor
  versionMinor := versionMinor
  headerSize := controlBlockSize
  layoutType := LayoutType.fixed.toUInt32
  dataCapacity := 64 * 16
  dataAlignment := 64
  fixedItemSize := 64

theorem exampleBlock_accepted : initControlBlock {} (64 * 16) .fixed 64 64 = some exampleBlock := by
  decide

/-- With its own constants the example can end with a full ring unread. -/
theorem fixed_channel_outcomes_example : ∃ channel,
    (machine exampleBlock 200000).Reachable Machine.Always (initial exampleBlock fun _ => 0) channel ∧
      channel.consumer = .left ∧ channel.drained = 199984 ∧ channel.mismatches = 0 :=
  (fixed_channel_outcomes exampleBlock (fun _ => 0) 200000 199984 0 (by decide) rfl (by decide)
    (by decide)).mpr ⟨rfl, by decide, by decide⟩

end SpscRing.FixedChannel
