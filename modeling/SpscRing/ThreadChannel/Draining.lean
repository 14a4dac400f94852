import SpscRing.ThreadChannel.Fixed

/-! `run_fixed_channel` as a drained stream: what holds of the channel in every state of
every interleaving of its two threads. -/

namespace SpscRing.FixedChannel

open SpscRing.Foundation SpscRing.Fixed

/-- The number a frame carries. -/
def tagOf (slot : List UInt8) : UInt64 := UInt64.ofNat (leValue (slot.take 8))

/-- The tags of consecutive frames. -/
def numbers (first stop : Nat) : List UInt64 := (List.range' first (stop - first)).map UInt64.ofNat

/-- `read_advance` has not yet moved the front. -/
def fetching : ReaderPc → Bool
  | .fetchAdd _ => true
  | _ => false

namespace Channel

/-- The frames published: the one under way counts from the store of its front on. -/
def published (channel : Channel) : Nat :=
  match channel.producer with
  | .committing => if channel.ring.pending then channel.sent.toNat else channel.sent.toNat + 1
  | _ => channel.sent.toNat

/-- The frames consumed: the one in hand counts from the move of the front on. -/
def consumed (channel : Channel) : Nat :=
  match channel.consumer with
  | .advance => channel.drained.toNat - 1
  | .advancing =>
    if fetching channel.ring.readerPc then channel.drained.toNat - 1 else channel.drained.toNat
  | _ => channel.drained.toNat

/-- The consumer has found the ring empty once `try_read` has made up its mind. -/
def phase (channel : Channel) : Drain.Phase :=
  match channel.consumer with
  | .reading =>
    if channel.ring.readerPc.isIdle && channel.ring.slot.isNone then .foundEmpty else .polling
  | .testDone => .foundEmpty
  | .left => .left
  | _ => .polling

/-- The stream a channel stands for. -/
def stream (channel : Channel) : Drain.Stream :=
  ⟨channel.published, channel.consumed, channel.done, channel.phase⟩

end Channel

section Predicates

variable (block : ControlBlock) (messages : UInt64)

/-- A valid ring whose frames hold a tag, and a number of messages that keeps the fronts
clear of the end of the 64-bit range. -/
structure Fitting : Prop where
  geometry : FixedGeometry block
  tagged : 8 ≤ (itemSize block).toNat
  small : (itemSize block).toNat * messages.toNat + block.dataCapacity.toNat < 2 ^ 63

/-- The producer is inside `try_reserve`. -/
def Reserving (ring : Fixed.State) : Prop :=
  match ring.writerPc with
  | .idle => ring.pending = ring.reserved.isSome
  | .loadWrite source | .loadRead source _ | .storeWrite source _ => source = none
  | _ => False

/-- The producer is inside `commit`, with a frame that carries its number. -/
def Committing (ring : Fixed.State) (tag : UInt64) : Prop :=
  match ring.writerPc with
  | .storeCommit => tagOf ring.log.draft = tag
  | .idle | .bumpCommit => ring.pending = false
  | _ => False

def ProducerOk (ring : Fixed.State) (sent : UInt64) : ProducerPc → Prop
  | .test | .loadWake | .waitWake _ => ring.writerPc = .idle ∧ ring.pending = false ∧ sent ≤ messages
  | .reserving => sent < messages ∧ Reserving ring
  | .fill => sent < messages ∧ ring.writerPc = .idle ∧ ring.pending = true
  | .commit => sent < messages ∧ ring.writerPc = .idle ∧ ring.pending = true ∧
    tagOf ring.log.draft = sent
  | .committing => sent < messages ∧ Committing ring sent
  | .storeDone | .join => ring.writerPc = .idle ∧ ring.pending = false ∧ sent = messages

/-- A slot in front of the consumer is published. -/
def Unread (ring : Fixed.State) : Prop :=
  ring.readPos.toNat + (itemSize block).toNat ≤ ring.commitPos.toNat

/-- The consumer is inside `try_read`. -/
def Reading (ring : Fixed.State) : Prop :=
  match ring.readerPc with
  | .loadRead size | .loadCommit size _ => size = none
  | .idle => ∀ index ∈ ring.slot, index = indexOf block ring.readPos ∧ Unread block ring
  | _ => False

/-- The consumer is inside `read_advance(1)`. -/
def Advancing (ring : Fixed.State) : Prop :=
  match ring.readerPc with
  | .fetchAdd count => count = 1
  | .bumpRead | .idle => True
  | _ => False

def ConsumerOk (ring : Fixed.State) (drained : UInt64) : ConsumerPc → Prop
  | .tryRead | .testDone | .loadSeq | .waitCommit _ | .left => ring.readerPc = .idle
  | .reading => Reading block ring
  | .advance => ring.readerPc = .idle ∧ 0 < drained.toNat ∧ Unread block ring
  | .advancing => 0 < drained.toNat ∧ Advancing ring

/-- The invariant of the channel. -/
structure Streaming (channel : Channel) : Prop where
  inv : Inv block channel.ring
  commitPos : channel.ring.commitPos.toNat = (itemSize block).toNat * channel.published
  readPos : channel.ring.readPos.toNat = (itemSize block).toNat * channel.consumed
  tags : (contents block channel.ring).map tagOf = numbers channel.consumed channel.published
  producer : ProducerOk messages channel.ring channel.sent channel.producer
  consumer : ConsumerOk block channel.ring channel.drained channel.consumer
  matched : channel.mismatches = 0
  closed : channel.done = true → channel.producer = .join

/-- A step keeps the invariant and is a step of the stream, or none. -/
structure Carries (before after : Channel) : Prop where
  streaming : Streaming block messages after
  shown : after.stream = before.stream ∨ ∃ event,
    (Drain.machine (itemCount block) messages.toNat).step before.stream event = some after.stream

end Predicates

section Numbers

variable {first stop : Nat}

theorem numbers_snoc (ordered : first ≤ stop) :
    numbers first (stop + 1) = numbers first stop ++ [UInt64.ofNat stop] := by
  have last : first + (stop - first) = stop := by omega
  rw [numbers, Nat.sub_add_comm ordered, List.range'_concat, List.map_append, Nat.one_mul, last]
  rfl

theorem numbers_cons (before : first < stop) :
    numbers first stop = UInt64.ofNat first :: numbers (first + 1) stop := by
  obtain ⟨count, rfl⟩ := Nat.exists_eq_add_of_lt before
  have length : first + count + 1 - first = count + 1 := by omega
  have rest : first + count + 1 - (first + 1) = count := by omega
  rw [numbers, numbers, length, rest, List.range'_succ, List.map_cons]

/-- A frame starts with what the producer wrote into it. -/
theorem tagOf_patch (old : List UInt8) (tag : UInt64) :
    tagOf (Memory.patch old 0 (bytesU64 tag)) = tag := by
  have front : (Memory.patch old 0 (bytesU64 tag)).take 8 = bytesU64 tag := by
    simp [Memory.patch]
  rw [tagOf, front, ofNat_leValue_bytesU64]

/-- The tag as the consumer copies it out of the slot. -/
theorem tagOf_slotAt {block : ControlBlock} {ring : Fixed.State} {position : UInt64}
    (tagged : 8 ≤ (itemSize block).toNat) :
    tagOf (ring.slotAt block position) = loadU64 ring.data (indexOf block position) := by
  have front := List.prefix_iff_eq_take.mp (ring.data.read_shorter (indexOf block position) tagged)
  rw [Memory.length_read] at front
  rw [tagOf, State.slotAt, Memory.slot, ← indexOf_eq, ← front, loadU64]

end Numbers

variable {block : ControlBlock} {messages : UInt64}

section Ring

variable {ring next : Fixed.State} {action : Action}

theorem ProducerOk.kept {sent : UInt64} {pc : ProducerPc} (ok : ProducerOk messages ring sent pc)
    (kept : ProducerKept ring next) : ProducerOk messages next sent pc := by
  cases pc <;> simp only [ProducerOk, Reserving, Committing, kept.writerPc, kept.pending,
    kept.reserved, kept.draft] <;> exact ok

theorem ConsumerOk.kept {drained : UInt64} {pc : ConsumerPc} (ok : ConsumerOk block ring drained pc)
    (kept : ConsumerKept ring next) (grown : ring.commitPos.toNat ≤ next.commitPos.toNat) :
    ConsumerOk block next drained pc := by
  have unread (held : Unread block ring) : Unread block next := by
    unfold Unread at held ⊢
    rw [kept.readPos]
    omega
  cases pc with
  | reading =>
    simp only [ConsumerOk, Reading, kept.readerPc, kept.slot, kept.readPos] at ok ⊢
    cases here : ring.readerPc <;> simp only [here] at ok ⊢
    case idle =>
      intro index seen
      exact ⟨(ok index seen).1, unread (ok index seen).2⟩
    all_goals exact ok
  | advance =>
    obtain ⟨idle, positive, held⟩ := ok
    exact ⟨kept.readerPc.trans idle, positive, unread held⟩
  | tryRead | testDone | loadSeq | waitCommit _ | left | advancing =>
    simp only [ConsumerOk, Advancing, kept.readerPc]
    exact ok

/-- With nothing outstanding the reservation front is the published front. -/
theorem writePos_of_free (inv : Inv block ring) (free : ring.pending = false) :
    ring.writePos = ring.commitPos := by
  have writer := inv.writer
  cases here : ring.writerPc <;> simp only [WriterOk, here] at writer
  case idle => exact (inv.settled here free).equal
  case loadWrite | loadRead | storeWrite => exact writer.1.equal
  case bumpCommit => exact writer.equal
  case copy => exact absurd writer.1.guarded (by simp [free])
  case storeCommit => exact absurd writer.guarded (by simp [free])

theorem outstanding_of_pending (inv : Inv block ring) (guarded : ring.pending = true) :
    Outstanding block ring := by
  have writer := inv.writer
  cases here : ring.writerPc <;> simp only [WriterOk, here] at writer
  case idle => exact inv.outstanding here guarded
  case loadWrite | loadRead | storeWrite => exact absurd writer.1.free (by simp [guarded])
  case bumpCommit => exact absurd writer.free (by simp [guarded])
  case copy => exact writer.1
  case storeCommit => exact writer

/-- What the queue shows of a step is all that happens to it. -/
theorem contents_balance (geometry : FixedGeometry block) (inv : Inv block ring)
    (taken : step block ring action = some next) :
    contents block ring ++ (observe block ring action).flatMap Fifo.Event.pushed =
      (observe block ring action).flatMap Fifo.Event.popped ++ contents block next :=
  Fifo.run_balance (simulate_step geometry inv taken)

end Ring

variable {channel : Channel}

section Counts

variable (streaming : Streaming block messages channel)
include streaming

theorem Streaming.published_le : channel.published ≤ messages.toNat := by
  have ok := streaming.producer
  cases here : channel.producer <;> simp only [ProducerOk, here] at ok <;>
    simp only [Channel.published, here]
  case committing =>
    have below := UInt64.lt_iff_toNat_lt.mp ok.1
    split <;> omega
  case test | loadWake | waitWake => exact UInt64.le_iff_toNat_le.mp ok.2.2
  case reserving | fill | commit => exact Nat.le_of_lt (UInt64.lt_iff_toNat_lt.mp ok.1)
  case storeDone | join => exact Nat.le_of_eq (congrArg UInt64.toNat ok.2.2)

/-- A frame is outstanding only while there are messages left to publish. -/
theorem Streaming.published_lt (guarded : channel.ring.pending = true) :
    channel.published < messages.toNat := by
  have ok := streaming.producer
  cases here : channel.producer <;> simp only [ProducerOk, here] at ok <;>
    simp only [Channel.published, here]
  case committing => simpa [guarded] using UInt64.lt_iff_toNat_lt.mp ok.1
  case reserving | fill | commit => exact UInt64.lt_iff_toNat_lt.mp ok.1
  case test | loadWake | waitWake | storeDone | join => simp [guarded] at ok

theorem Streaming.noWrap (fitting : Fitting block messages) : NoWrap block channel.ring := by
  have small := fitting.small
  have front := streaming.commitPos
  unfold NoWrap
  cases guarded : channel.ring.pending with
  | false =>
    have most : (itemSize block).toNat * channel.published ≤
        (itemSize block).toNat * messages.toNat := Nat.mul_le_mul_left _ streaming.published_le
    rw [writePos_of_free streaming.inv guarded]
    omega
  | true =>
    have most : (itemSize block).toNat * (channel.published + 1) ≤
        (itemSize block).toNat * messages.toNat :=
      Nat.mul_le_mul_left _ (streaming.published_lt guarded)
    rw [(outstanding_of_pending streaming.inv guarded).reserved]
    rw [Nat.mul_add, Nat.mul_one] at most
    omega

theorem Streaming.consumed_le (geometry : FixedGeometry block) :
    channel.consumed ≤ channel.published := by
  have ordered := streaming.inv.fronts.consumed
  rw [streaming.readPos, streaming.commitPos] at ordered
  exact Nat.le_of_mul_le_mul_left ordered geometry.positive

theorem Streaming.consumed_lt (geometry : FixedGeometry block) (unread : Unread block channel.ring) :
    channel.consumed < channel.published := by
  unfold Unread at unread
  rw [streaming.readPos, streaming.commitPos, ← Nat.mul_succ] at unread
  exact Nat.le_of_mul_le_mul_left unread geometry.positive

end Counts

section Producer

variable (streaming : Streaming block messages channel) (opened : channel.done = false)
include streaming opened

/-- A step of the producer outside the ring. -/
theorem Streaming.pass {sent : UInt64} {pc : ProducerPc}
    (ok : ProducerOk messages channel.ring sent pc)
    (same : Channel.published { channel with sent, producer := pc } = channel.published) :
    Carries block messages channel { channel with sent, producer := pc } := by
  refine ⟨{ streaming with commitPos := ?_, tags := ?_, producer := ok, closed := ?_ }, .inl ?_⟩
  · rw [same]
    exact streaming.commitPos
  · rw [same]
    exact streaming.tags
  · intro closed
    simp [opened] at closed
  · unfold Channel.stream
    rw [same]
    rfl

variable (fitting : Fitting block messages)
include fitting

/-- A step of the producer inside the ring that publishes nothing. -/
theorem Streaming.produce {next : Fixed.State} {pc : ProducerPc} {action : Action}
    (taken : step block channel.ring action = some next) (acts : action.actor = .producer)
    (single : action ≠ .restart) (contract : WithinContract block channel.ring action)
    (silent : observe block channel.ring action = [])
    (still : next.commitPos = channel.ring.commitPos)
    (ok : ProducerOk messages next channel.sent pc)
    (same : Channel.published { channel with ring := next, producer := pc } = channel.published) :
    Carries block messages channel { channel with ring := next, producer := pc } := by
  have kept := consumerKept_of_actor acts taken
  have consumed : Channel.consumed { channel with ring := next, producer := pc } =
      channel.consumed := by
    unfold Channel.consumed
    simp only [kept.readerPc]
  have phase : Channel.phase { channel with ring := next, producer := pc } = channel.phase := by
    unfold Channel.phase
    simp only [kept.readerPc, kept.slot]
  have balance := contents_balance fitting.geometry streaming.inv taken
  simp only [silent, List.flatMap_nil, List.append_nil, List.nil_append] at balance
  refine ⟨⟨inv_step fitting.geometry streaming.inv ⟨contract, streaming.noWrap fitting, single⟩ taken,
    ?_, ?_, ?_, ok, streaming.consumer.kept kept ?_, streaming.matched, ?_⟩, .inl ?_⟩
  · rw [same, still]
    exact streaming.commitPos
  · rw [consumed, kept.readPos]
    exact streaming.readPos
  · rw [same, consumed, ← balance]
    exact streaming.tags
  · rw [still]
  · intro closed
    simp [opened] at closed
  · unfold Channel.stream
    rw [same, consumed, phase]

/-- The store of the published front sends the frame. -/
theorem Streaming.publish {next : Fixed.State} (here : channel.producer = .committing)
    (storing : channel.ring.writerPc = .storeCommit)
    (taken : step block channel.ring .writer = some next) :
    Carries block messages channel { channel with ring := next, producer := .committing } := by
  have single : Action.writer ≠ .restart := by simp
  have kept := consumerKept_of_actor rfl taken
  have kind := streaming.producer
  simp only [ProducerOk, here, Committing, storing] at kind
  obtain ⟨more, tag⟩ := kind
  have writer := streaming.inv.writer
  simp only [WriterOk, storing] at writer
  have balance := contents_balance fitting.geometry streaming.inv taken
  simp only [observe, storing, List.flatMap_cons, List.flatMap_nil, Fifo.Event.pushed,
    Fifo.Event.popped, List.append_nil, List.nil_append] at balance
  have admitted : SingleSession block channel.ring .writer next :=
    ⟨trivial, streaming.noWrap fitting, single⟩
  have inv := inv_step fitting.geometry streaming.inv admitted taken
  have before : channel.published = channel.sent.toNat := by
    simp [Channel.published, here, writer.guarded]
  simp only [step, writerStep, storing, Option.some.injEq] at taken
  have free : next.pending = false := by rw [← taken]
  have front : next.commitPos = channel.ring.writePos := by
    rw [← taken]
    exact writer.stop
  have moved : next.commitPos.toNat = channel.ring.commitPos.toNat + (itemSize block).toNat := by
    rw [front, writer.reserved]
  have published : Channel.published { channel with ring := next, producer := .committing } =
      channel.published + 1 := by
    rw [before]
    simp [Channel.published, free]
  have consumed : Channel.consumed { channel with ring := next, producer := .committing } =
      channel.consumed := by
    unfold Channel.consumed
    simp only [kept.readerPc]
  have phase : Channel.phase { channel with ring := next, producer := .committing } =
      channel.phase := by
    unfold Channel.phase
    simp only [kept.readerPc, kept.slot]
  have ordered := streaming.consumed_le fitting.geometry
  refine ⟨⟨inv, ?_, ?_, ?_, ?_, streaming.consumer.kept kept ?_, streaming.matched, ?_⟩,
    .inr ⟨.send, ?_⟩⟩
  · rw [published, moved, streaming.commitPos, Nat.mul_add, Nat.mul_one]
  · rw [consumed, kept.readPos]
    exact streaming.readPos
  · rw [published, consumed, ← balance, List.map_append, streaming.tags, numbers_snoc ordered]
    simp [before, tag]
  · refine ⟨more, ?_⟩
    rw [← taken]
    rfl
  · rw [moved]
    exact Nat.le_add_right _ _
  · intro closed
    simp [opened] at closed
  · have room := length_contents_lt streaming.inv fitting.geometry writer
    have length := congrArg List.length streaming.tags
    simp only [List.length_map, numbers, List.length_range'] at length
    have allowed : channel.published < messages.toNat ∧
        channel.published < channel.consumed + itemCount block := by
      constructor
      · rw [before]
        exact UInt64.lt_iff_toNat_lt.mp more
      · omega
    simp only [Drain.machine, Drain.step, Channel.stream, published, consumed, phase]
    rw [if_pos ⟨opened, allowed⟩]

theorem Streaming.reserve {next : Fixed.State} (here : channel.producer = .reserving)
    (busy : channel.ring.writerPc.isIdle = false)
    (taken : step block channel.ring .writer = some next) :
    Carries block messages channel { channel with ring := next, producer := .reserving } := by
  have kind := streaming.producer
  have writer := streaming.inv.writer
  simp only [ProducerOk, here, Reserving] at kind
  obtain ⟨more, inside⟩ := kind
  have quiet {after : Fixed.State} (moved : step block channel.ring .writer = some after)
      (silent : observe block channel.ring .writer = [])
      (still : after.commitPos = channel.ring.commitPos) (ok : Reserving after) :
      Carries block messages channel { channel with ring := after, producer := .reserving } :=
    streaming.produce opened fitting moved rfl (by simp) trivial silent still ⟨more, ok⟩
      (by simp [Channel.published, here])
  have moved := taken
  cases pc : channel.ring.writerPc with
  | idle => simp [pc, WriterPc.isIdle] at busy
  | copy _ _ | storeCommit | bumpCommit => simp [pc] at inside
  | loadWrite source =>
    simp only [pc] at inside
    subst inside
    simp only [step, writerStep, pc, Option.some.injEq] at taken
    refine quiet moved (by simp [observe, pc]) (by rw [← taken]) ?_
    rw [← taken]
    rfl
  | loadRead source write =>
    simp only [pc] at inside
    subst inside
    simp only [WriterOk, pc] at writer
    simp only [step, writerStep, pc] at taken
    split at taken <;> simp only [Option.some.injEq] at taken <;>
      refine quiet moved (by simp [observe, pc]) (by rw [← taken]) ?_ <;> rw [← taken]
    · exact writer.1.free
    · rfl
  | storeWrite source write =>
    simp only [pc] at inside
    subst inside
    simp only [step, writerStep, pc, Option.some.injEq] at taken
    refine quiet moved (by simp [observe, pc]) ?_ ?_
    · rw [← taken]
      rfl
    · rw [← taken]
      rfl

theorem Streaming.commit {next : Fixed.State} (here : channel.producer = .committing)
    (busy : channel.ring.writerPc.isIdle = false)
    (taken : step block channel.ring .writer = some next) :
    Carries block messages channel { channel with ring := next, producer := .committing } := by
  have kind := streaming.producer
  simp only [ProducerOk, here, Committing] at kind
  obtain ⟨more, inside⟩ := kind
  cases pc : channel.ring.writerPc with
  | idle => simp [pc, WriterPc.isIdle] at busy
  | loadWrite _ | loadRead _ _ | storeWrite _ _ | copy _ _ => simp [pc] at inside
  | storeCommit => exact streaming.publish opened fitting here pc taken
  | bumpCommit =>
    simp only [pc] at inside
    have moved := taken
    simp only [step, writerStep, pc, Option.some.injEq] at taken
    have free : next.pending = false := by
      rw [← taken]
      exact inside
    refine streaming.produce opened fitting moved rfl (by simp) trivial (by simp [observe, pc])
      (by rw [← taken]) ⟨more, ?_⟩ (by simp [Channel.published, here, free, inside])
    rw [← taken]
    exact inside

omit opened in
theorem carries_producer {after : Channel} (taken : producerStep block messages channel = some after) :
    Carries block messages channel after := by
  have kind := streaming.producer
  have opened : channel.done = false := by
    by_contra ended
    have joined := streaming.closed (by simpa using ended)
    simp [producerStep, joined] at taken
  cases here : channel.producer with
  | test =>
    simp only [ProducerOk, here] at kind
    obtain ⟨idle, free, within⟩ := kind
    simp only [producerStep, here] at taken
    split at taken
    · rename_i more
      obtain ⟨next, moved, rfl⟩ := Option.map_eq_some_iff.mp taken
      have begun := moved
      simp only [step, idle, State.beginReserve, free, Bool.false_eq_true, if_false,
        Option.some.injEq] at begun
      refine streaming.produce opened fitting moved rfl (by simp) trivial rfl (by rw [← begun])
        ⟨more, ?_⟩ (by simp [Channel.published, here])
      rw [← begun]
      rfl
    · rename_i last
      cases taken
      refine streaming.pass opened ⟨idle, free, ?_⟩ (by simp [Channel.published, here])
      exact UInt64.le_antisymm within (UInt64.not_lt.mp last)
  | reserving =>
    simp only [producerStep, here] at taken
    split at taken
    · rename_i returned
      rw [WriterPc.isIdle_iff] at returned
      simp only [ProducerOk, here, Reserving, returned] at kind
      split at taken <;> cases taken
      · rename_i reserved
        exact streaming.pass opened ⟨kind.1, returned, kind.2.trans reserved⟩
          (by simp [Channel.published, here])
      · rename_i refused
        refine streaming.pass opened ⟨returned, ?_, Nat.le_of_lt kind.1⟩
          (by simp [Channel.published, here])
        rw [kind.2]
        simpa using refused
    · rename_i busy
      obtain ⟨next, moved, rfl⟩ := Option.map_eq_some_iff.mp taken
      exact streaming.reserve opened fitting here (by simpa using busy) moved
  | loadWake | waitWake wake =>
    simp only [ProducerOk, here] at kind
    simp only [producerStep, here] at taken
    cases taken
    exact streaming.pass opened kind (by simp [Channel.published, here])
  | fill =>
    simp only [ProducerOk, here] at kind
    obtain ⟨more, idle, guarded⟩ := kind
    simp only [producerStep, here] at taken
    obtain ⟨next, moved, rfl⟩ := Option.map_eq_some_iff.mp taken
    have filled := moved
    have fits : 0 + (bytesU64 channel.sent).length ≤ (itemSize block).toNat := by
      simpa using fitting.tagged
    simp only [step, idle, if_pos (⟨guarded, fits⟩ : channel.ring.pending = true ∧
      0 + (bytesU64 channel.sent).length ≤ (itemSize block).toNat), Option.some.injEq] at filled
    refine streaming.produce opened fitting moved rfl (by simp) trivial rfl (by rw [← filled]; rfl)
      ?_ (by simp [Channel.published, here])
    rw [← filled]
    exact ⟨more, idle, guarded, tagOf_patch _ _⟩
  | commit =>
    simp only [ProducerOk, here] at kind
    obtain ⟨more, idle, guarded, tag⟩ := kind
    simp only [producerStep, here] at taken
    obtain ⟨next, moved, rfl⟩ := Option.map_eq_some_iff.mp taken
    have begun := moved
    simp only [step, idle, State.beginCommit, guarded, Bool.not_true, Bool.false_eq_true, if_false,
      Option.some.injEq] at begun
    refine streaming.produce opened fitting moved rfl (by simp) trivial rfl (by rw [← begun])
      ⟨more, ?_⟩ ?_
    · rw [← begun]
      exact tag
    · have still : next.pending = true := by rw [← begun]
      simp [Channel.published, here, still]
  | committing =>
    simp only [producerStep, here] at taken
    split at taken
    · rename_i returned
      rw [WriterPc.isIdle_iff] at returned
      simp only [ProducerOk, here, Committing, returned] at kind
      cases taken
      have counted := toNat_succ kind.1
      refine streaming.pass opened ⟨returned, kind.2, UInt64.le_iff_toNat_le.mpr ?_⟩ ?_
      · rw [counted]
        exact UInt64.lt_iff_toNat_lt.mp kind.1
      · simp [Channel.published, here, kind.2, counted]
    · rename_i busy
      obtain ⟨next, moved, rfl⟩ := Option.map_eq_some_iff.mp taken
      exact streaming.commit opened fitting here (by simpa using busy) moved
  | storeDone =>
    simp only [ProducerOk, here] at kind
    simp only [producerStep, here] at taken
    cases taken
    have published : channel.published = channel.sent.toNat := by simp [Channel.published, here]
    refine ⟨⟨streaming.inv, ?_, streaming.readPos, ?_, kind, streaming.consumer, streaming.matched,
      fun _ => rfl⟩, .inr ⟨.close, ?_⟩⟩
    · rw [streaming.commitPos, published]
      rfl
    · rw [streaming.tags, published]
      rfl
    · have all : channel.sent.toNat = messages.toNat := congrArg UInt64.toNat kind.2.2
      simp [Drain.machine, Drain.step, Channel.stream, opened, published, all]
      exact ⟨all.symm, rfl, rfl⟩
  | join => simp [producerStep, here] at taken

end Producer

section Consumer

variable (streaming : Streaming block messages channel)
include streaming

/-- A step of the consumer outside the ring. -/
theorem Streaming.turn {phase : Drain.Phase} (drained : UInt64) (pc : ConsumerPc)
    (ok : ConsumerOk block channel.ring drained pc)
    (same : Channel.consumed { channel with drained, consumer := pc } = channel.consumed)
    (shown : Channel.phase { channel with drained, consumer := pc } = phase) :
    Streaming block messages { channel with drained, consumer := pc } ∧
      Channel.stream { channel with drained, consumer := pc } =
        ⟨channel.published, channel.consumed, channel.done, phase⟩ := by
  refine ⟨{ streaming with readPos := ?_, tags := ?_, consumer := ok }, ?_⟩
  · rw [same]
    exact streaming.readPos
  · rw [same]
    exact streaming.tags
  · unfold Channel.stream
    rw [same, shown]
    rfl

variable (fitting : Fitting block messages)
include fitting

/-- A step of the consumer inside the ring that consumes nothing. -/
theorem Streaming.consume {next : Fixed.State} {action : Action} {phase : Drain.Phase}
    (pc : ConsumerPc) (taken : step block channel.ring action = some next)
    (acts : action.actor = .consumer) (single : action ≠ .restart)
    (contract : WithinContract block channel.ring action)
    (still : next.readPos = channel.ring.readPos)
    (silent : (observe block channel.ring action).flatMap Fifo.Event.pushed = [] ∧
      (observe block channel.ring action).flatMap Fifo.Event.popped = [])
    (ok : ConsumerOk block next channel.drained pc)
    (same : Channel.consumed { channel with ring := next, consumer := pc } = channel.consumed)
    (shown : Channel.phase { channel with ring := next, consumer := pc } = phase) :
    Streaming block messages { channel with ring := next, consumer := pc } ∧
      Channel.stream { channel with ring := next, consumer := pc } =
        ⟨channel.published, channel.consumed, channel.done, phase⟩ := by
  have kept := producerKept_of_actor acts taken
  have published : Channel.published { channel with ring := next, consumer := pc } =
      channel.published := by
    unfold Channel.published
    simp only [kept.pending]
  have balance := contents_balance fitting.geometry streaming.inv taken
  simp only [silent.1, silent.2, List.append_nil, List.nil_append] at balance
  refine ⟨⟨inv_step fitting.geometry streaming.inv ⟨contract, streaming.noWrap fitting, single⟩ taken,
    ?_, ?_, ?_, streaming.producer.kept kept, ok, streaming.matched, streaming.closed⟩, ?_⟩
  · rw [published, kept.commitPos]
    exact streaming.commitPos
  · rw [same, still]
    exact streaming.readPos
  · rw [published, same, ← balance]
    exact streaming.tags
  · unfold Channel.stream
    rw [published, same, shown]

/-- `try_read` looks at the published front: an empty ring is found empty. -/
theorem Streaming.read {next : Fixed.State} (here : channel.consumer = .reading)
    (busy : channel.ring.readerPc.isIdle = false)
    (taken : step block channel.ring .reader = some next) :
    Carries block messages channel { channel with ring := next, consumer := .reading } := by
  have inside := streaming.consumer
  have reader := streaming.inv.reader
  simp only [ConsumerOk, here, Reading] at inside
  have polling : channel.stream = ⟨channel.published, channel.consumed, channel.done, .polling⟩ := by
    simp [Channel.stream, Channel.phase, here, busy]
  have moved := taken
  cases pc : channel.ring.readerPc with
  | idle => simp [pc, ReaderPc.isIdle] at busy
  | copyOut _ _ | fetchAdd _ | bumpRead => simp [pc] at inside
  | loadRead size =>
    simp only [pc] at inside
    subst inside
    simp only [step, readerStep, pc, Option.some.injEq] at taken
    have loaded : next.readerPc = .loadCommit none channel.ring.readPos := by rw [← taken]
    obtain ⟨kept, same⟩ := streaming.consume fitting .reading moved rfl (by simp) trivial
      (by rw [← taken]) (by simp [observe, pc]) (by simp [ConsumerOk, Reading, loaded])
      (by simp [Channel.consumed, here]) (by simp [Channel.phase, loaded, ReaderPc.isIdle]; rfl)
    exact ⟨kept, .inl (same.trans polling.symm)⟩
  | loadCommit size read =>
    simp only [pc] at inside
    subst inside
    simp only [ReaderOk, pc] at reader
    subst reader
    simp only [step, readerStep, pc] at taken
    split at taken
    · rename_i empty
      simp only [Option.some.injEq] at taken
      have returned : next.readerPc = .idle ∧ next.slot = none := by
        rw [← taken]
        exact ⟨rfl, rfl⟩
      obtain ⟨kept, same⟩ := streaming.consume fitting .reading moved rfl (by simp) trivial
        (by rw [← taken]) (by simp [observe, pc, empty])
        (by simp [ConsumerOk, Reading, returned]) (by simp [Channel.consumed, here])
        (by simp [Channel.phase, returned, ReaderPc.isIdle]; rfl)
      refine ⟨kept, .inr ⟨.look, ?_⟩⟩
      have fronts := Nat.le_antisymm streaming.inv.fronts.consumed (UInt64.le_iff_toNat_le.mp empty)
      rw [streaming.readPos, streaming.commitPos] at fronts
      have level := Nat.eq_of_mul_eq_mul_left fitting.geometry.positive fronts
      rw [same, polling]
      simp [Drain.machine, Drain.step, level]
    · rename_i unread
      simp only [Option.some.injEq] at taken
      have published := published_slot streaming.inv.fronts unread
      have returned : next.readerPc = .idle ∧ next.slot = some (indexOf block next.readPos) ∧
          Unread block next := by
        rw [← taken]
        exact ⟨rfl, rfl, published⟩
      obtain ⟨kept, same⟩ := streaming.consume fitting .reading moved rfl (by simp) trivial
        (by rw [← taken]) (by simp [observe, pc, unread, Fifo.Event.pushed, Fifo.Event.popped])
        (by simp [ConsumerOk, Reading, returned]) (by simp [Channel.consumed, here])
        (by simp [Channel.phase, returned]; rfl)
      exact ⟨kept, .inl (same.trans polling.symm)⟩

/-- The move of the consumer's front takes the frame in hand. -/
theorem Streaming.advance {next : Fixed.State} (here : channel.consumer = .advancing)
    (busy : channel.ring.readerPc.isIdle = false)
    (taken : step block channel.ring .reader = some next) :
    Carries block messages channel { channel with ring := next, consumer := .advancing } := by
  have inside := streaming.consumer
  have reader := streaming.inv.reader
  simp only [ConsumerOk, here, Advancing] at inside
  obtain ⟨positive, inside⟩ := inside
  have polling : channel.stream = ⟨channel.published, channel.consumed, channel.done, .polling⟩ := by
    simp [Channel.stream, Channel.phase, here]
  have moved := taken
  cases pc : channel.ring.readerPc with
  | idle => simp [pc, ReaderPc.isIdle] at busy
  | loadRead _ | loadCommit _ _ | copyOut _ _ => simp [pc] at inside
  | bumpRead =>
    simp only [step, readerStep, pc, Option.some.injEq] at taken
    have returned : next.readerPc = .idle := by rw [← taken]
    obtain ⟨kept, same⟩ := streaming.consume fitting .advancing moved rfl (by simp) trivial
      (by rw [← taken]) (by simp [observe, pc])
      (by simp [ConsumerOk, Advancing, returned, positive])
      (by simp [Channel.consumed, here, returned, pc, fetching]) (by simp [Channel.phase]; rfl)
    exact ⟨kept, .inl (same.trans polling.symm)⟩
  | fetchAdd count =>
    simp only [pc] at inside
    subst inside
    simp only [ReaderOk, pc] at reader
    have single : Action.reader ≠ .restart := by simp
    have kept := producerKept_of_actor rfl moved
    have admitted : SingleSession block channel.ring .reader next :=
      ⟨trivial, streaming.noWrap fitting, single⟩
    have inv := inv_step fitting.geometry streaming.inv admitted moved
    have balance := contents_balance fitting.geometry streaming.inv moved
    simp only [step, readerStep, pc, Option.some.injEq] at taken
    have front : next.readPos.toNat = channel.ring.readPos.toNat + (itemSize block).toNat := by
      rw [← taken]
      simpa using toNat_fetchAdd reader
    have before : channel.consumed = channel.drained.toNat - 1 := by
      simp [Channel.consumed, here, pc, fetching]
    have consumed : Channel.consumed { channel with ring := next, consumer := .advancing } =
        channel.consumed + 1 := by
      have bumping : next.readerPc = .bumpRead := by rw [← taken]
      rw [before, Nat.sub_add_cancel positive]
      simp [Channel.consumed, bumping, fetching]
    have published : Channel.published { channel with ring := next, consumer := .advancing } =
        channel.published := by
      unfold Channel.published
      simp only [kept.pending]
    have unread : channel.consumed < channel.published := by
      refine streaming.consumed_lt fitting.geometry ?_
      unfold Unread
      simpa using reader
    refine ⟨⟨inv, ?_, ?_, ?_, streaming.producer.kept kept, ⟨positive, ?_⟩, streaming.matched,
      streaming.closed⟩, .inr ⟨.take, ?_⟩⟩
    · rw [published, kept.commitPos]
      exact streaming.commitPos
    · rw [consumed, front, streaming.readPos, Nat.mul_succ]
    · have tags := congrArg (List.map tagOf) balance
      rw [published, consumed]
      simp only [observe, pc, List.flatMap_cons, List.flatMap_nil, Fifo.Event.pushed,
        Fifo.Event.popped, List.append_nil, streaming.tags, numbers_cons unread,
        Memory.slots, UInt64.toNat_one, List.range_one, List.map_cons, List.map_nil,
        List.cons_append, List.nil_append, List.cons.injEq] at tags
      exact tags.2.symm
    · rw [← taken]
      trivial
    · rw [polling]
      simp [Drain.machine, Drain.step, Channel.stream, published, consumed, unread, Channel.phase]

/-- The frame in view carries the number of frames drained so far. -/
theorem Streaming.tag_eq (here : channel.consumer = .reading) (unread : Unread block channel.ring) :
    loadU64 channel.ring.data (indexOf block channel.ring.readPos) = channel.drained := by
  have consumed : channel.consumed = channel.drained.toNat := by simp [Channel.consumed, here]
  have more := streaming.consumed_lt fitting.geometry unread
  have first := head_contents streaming.inv unread fitting.geometry.positive
  have tags := congrArg List.head? streaming.tags
  rw [List.head?_map, first, numbers_cons more, consumed, UInt64.ofNat_toNat] at tags
  simp only [Option.map_some, List.head?_cons, Option.some.injEq] at tags
  rw [← tagOf_slotAt fitting.tagged]
  exact tags

theorem Streaming.receive {index : Nat} (here : channel.consumer = .reading)
    (returned : channel.ring.readerPc = .idle) (seen : channel.ring.slot = some index) :
    Carries block messages channel (channel.receive index) := by
  have inside := streaming.consumer
  simp only [ConsumerOk, here, Reading, returned] at inside
  obtain ⟨rfl, unread⟩ := inside index seen
  have consumed : channel.consumed = channel.drained.toNat := by simp [Channel.consumed, here]
  have most : channel.drained.toNat + 1 < 2 ^ 64 := by
    have ordered := streaming.consumed_lt fitting.geometry unread
    have below := streaming.published_le
    have limit := messages.toNat_lt
    omega
  have counted : (channel.drained + 1).toNat = channel.drained.toNat + 1 := toNat_add most
  have matched := streaming.tag_eq fitting here unread
  obtain ⟨kept, same⟩ := streaming.turn (channel.drained + 1) .advance
    ⟨returned, by rw [counted]; exact Nat.succ_pos _, unread⟩
    (by simp [Channel.consumed, here, counted]) (by simp [Channel.phase]; rfl)
  have view : channel.receive (indexOf block channel.ring.readPos) =
      { channel with consumer := .advance, drained := channel.drained + 1 } := by
    simp [Channel.receive, matched]
  rw [view]
  refine ⟨kept, .inl (same.trans ?_)⟩
  simp [Channel.stream, Channel.phase, here, seen]

theorem carries_consumer {after : Channel} (taken : consumerStep block channel = some after) :
    Carries block messages channel after := by
  have kind := streaming.consumer
  cases here : channel.consumer with
  | tryRead =>
    simp only [ConsumerOk, here] at kind
    simp only [consumerStep, here] at taken
    obtain ⟨next, moved, rfl⟩ := Option.map_eq_some_iff.mp taken
    have begun := moved
    simp only [step, kind, Option.some.injEq] at begun
    have inside : next.readerPc = .loadRead none := by rw [← begun]
    obtain ⟨kept, same⟩ := streaming.consume fitting .reading moved rfl (by simp) trivial
      (by rw [← begun]) (by simp [observe]) (by simp [ConsumerOk, Reading, inside])
      (by simp [Channel.consumed, here]) (by simp [Channel.phase, inside, ReaderPc.isIdle]; rfl)
    refine ⟨kept, .inl (same.trans ?_)⟩
    simp [Channel.stream, Channel.phase, here]
  | reading =>
    simp only [consumerStep, here] at taken
    split at taken
    · rename_i returned
      have idle := ReaderPc.isIdle_iff.mp returned
      split at taken <;> cases taken
      · rename_i index seen
        exact streaming.receive fitting here idle seen
      · rename_i empty
        obtain ⟨kept, same⟩ := streaming.turn channel.drained .testDone idle
          (by simp [Channel.consumed, here]) (by simp [Channel.phase]; rfl)
        refine ⟨kept, .inl (same.trans ?_)⟩
        simp [Channel.stream, Channel.phase, here, returned, empty]
    · rename_i busy
      obtain ⟨next, moved, rfl⟩ := Option.map_eq_some_iff.mp taken
      exact streaming.read fitting here (by simpa using busy) moved
  | advance =>
    simp only [ConsumerOk, here] at kind
    obtain ⟨idle, positive, unread⟩ := kind
    simp only [consumerStep, here] at taken
    obtain ⟨next, moved, rfl⟩ := Option.map_eq_some_iff.mp taken
    have begun := moved
    simp only [step, idle, Option.some.injEq] at begun
    have inside : next.readerPc = .fetchAdd 1 := by rw [← begun]
    have contract : WithinContract block channel.ring (.read (.readAdvance 1)) := by
      simpa [WithinContract, Unread] using unread
    obtain ⟨kept, same⟩ := streaming.consume fitting .advancing moved rfl (by simp) contract
      (by rw [← begun]) (by simp [observe]) (by simp [ConsumerOk, Advancing, inside, positive])
      (by simp [Channel.consumed, here, inside, fetching]) (by simp [Channel.phase]; rfl)
    refine ⟨kept, .inl (same.trans ?_)⟩
    simp [Channel.stream, Channel.phase, here]
  | advancing =>
    simp only [consumerStep, here] at taken
    split at taken
    · rename_i returned
      have idle := ReaderPc.isIdle_iff.mp returned
      cases taken
      obtain ⟨kept, same⟩ := streaming.turn channel.drained .tryRead idle
        (by simp [Channel.consumed, here, idle, fetching]) (by simp [Channel.phase]; rfl)
      refine ⟨kept, .inl (same.trans ?_)⟩
      simp [Channel.stream, Channel.phase, here]
    · rename_i busy
      obtain ⟨next, moved, rfl⟩ := Option.map_eq_some_iff.mp taken
      exact streaming.advance fitting here (by simpa using busy) moved
  | testDone =>
    simp only [ConsumerOk, here] at kind
    simp only [consumerStep, here] at taken
    have found : channel.stream =
        ⟨channel.published, channel.consumed, channel.done, .foundEmpty⟩ := by
      simp [Channel.stream, Channel.phase, here]
    split at taken <;> cases taken
    · rename_i closed
      obtain ⟨kept, same⟩ := streaming.turn channel.drained .left kind
        (by simp [Channel.consumed, here]) (by simp [Channel.phase]; rfl)
      refine ⟨kept, .inr ⟨.leave, ?_⟩⟩
      rw [same, found]
      simp [Drain.machine, Drain.step, closed]
    · rename_i opened
      obtain ⟨kept, same⟩ := streaming.turn channel.drained .loadSeq kind
        (by simp [Channel.consumed, here]) (by simp [Channel.phase]; rfl)
      refine ⟨kept, .inr ⟨.again, ?_⟩⟩
      rw [same, found]
      simp [Drain.machine, Drain.step, opened]
  | loadSeq =>
    simp only [ConsumerOk, here] at kind
    simp only [consumerStep, here] at taken
    cases taken
    obtain ⟨kept, same⟩ := streaming.turn channel.drained (.waitCommit channel.ring.commitSeq) kind
      (by simp [Channel.consumed, here]) (by simp [Channel.phase]; rfl)
    refine ⟨kept, .inl (same.trans ?_)⟩
    simp [Channel.stream, Channel.phase, here]
  | waitCommit seq =>
    simp only [ConsumerOk, here] at kind
    simp only [consumerStep, here] at taken
    cases taken
    obtain ⟨kept, same⟩ := streaming.turn channel.drained .tryRead kind
      (by simp [Channel.consumed, here]) (by simp [Channel.phase]; rfl)
    refine ⟨kept, .inl (same.trans ?_)⟩
    simp [Channel.stream, Channel.phase, here]
  | left => simp [consumerStep, here] at taken

end Consumer

theorem carries_step (fitting : Fitting block messages) (streaming : Streaming block messages channel)
    {thread : Thread} {after : Channel}
    (taken : channelStep block messages channel thread = some after) :
    Carries block messages channel after := by
  cases thread with
  | producer => exact carries_producer streaming fitting taken
  | consumer => exact carries_consumer streaming fitting taken

theorem streaming_initial (data : Memory) (fresh : block.rbMeta = {}) :
    Streaming block messages (initial block data) := by
  refine ⟨inv_initial data fresh, ?_, ?_, ?_, ⟨rfl, rfl, UInt64.zero_le⟩, rfl, rfl, ?_⟩
  · simp [initial, Fixed.initial, fresh, Channel.published]
  · simp [initial, Fixed.initial, fresh, Channel.consumed]
  · simp [initial, Fixed.initial, fresh, Channel.published, Channel.consumed, numbers, contents,
      Memory.slots]
  · simp [initial]

theorem reachable_streaming (fitting : Fitting block messages) {data : Memory}
    (fresh : block.rbMeta = {})
    (reached : (machine block messages).Reachable Machine.Always (initial block data) channel) :
    Streaming block messages channel :=
  reached.invariant (Streaming block messages) (streaming_initial data fresh)
    fun _ _ _ streaming _ taken => (carries_step fitting streaming taken).streaming

/-- Every run of the channel is a run of its stream. -/
theorem reachable_stream (fitting : Fitting block messages) {data : Memory}
    (fresh : block.rbMeta = {})
    (reached : (machine block messages).Reachable Machine.Always (initial block data) channel) :
    (Drain.machine (itemCount block) messages.toNat).Reachable Machine.Always {} channel.stream := by
  refine reached.simulates _ Machine.Always Channel.stream (Streaming block messages)
    (streaming_initial data fresh)
    (fun _ _ _ streaming _ taken => (carries_step fitting streaming taken).streaming) ?_
  intro before thread after streaming _ taken
  rcases (carries_step fitting streaming taken).shown with same | ⟨event, shown⟩
  · exact .inl same
  · exact .inr ⟨event, shown, trivial⟩

end SpscRing.FixedChannel
