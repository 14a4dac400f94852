import SpscRing.ThreadChannel.Varlen
import SpscRing.Varlen.Passes

/-! What `run_varlen_channel` delivers: the messages as they were meant, in order and
none twice, and how many of them it can leave behind. -/

namespace SpscRing.VarlenChannel

open SpscRing.Foundation SpscRing.Varlen
open SpscRing.Channel (Role)

/-- The first messages of the producer. -/
def numbered (count : Nat) : List Message :=
  (List.range count).map fun number => messageOf (UInt64.ofNat number)

/-- The reservation for a message. -/
def callOf (number : UInt64) : ReserveCall :=
  { payloadSize := lengthOf number, messageMeta := metaOf number }

/-- The messages published so far. -/
def Channel.published (channel : Channel) : Nat :=
  match channel.producer with
  | .committing => if channel.ring.pending then channel.sent.toNat else channel.sent.toNat + 1
  | _ => channel.sent.toNat

section Predicates

variable (block : ControlBlock) (messages : UInt64)

/-- A ring that holds the longest message. -/
structure Fitting : Prop where
  shape : Shape block
  longest : exactSlotSize block 31 ≤ block.dataCapacity.toNat

/-- The outstanding slot is for the message with a number. -/
structure Reserved (ring : Varlen.State) (number position : UInt64) : Prop where
  idle : ring.writerPc = .idle
  guarded : ring.pending = true
  last : ring.lastPosition = position
  requested : ring.requested = lengthOf number
  size : ring.log.draft.payload.length = (lengthOf number).toNat
  sameMeta : ring.log.draft.messageMeta = metaOf number

/-- The producer is inside `try_reserve`. -/
def Reserving (ring : Varlen.State) (number : UInt64) : Prop :=
  match ring.writerPc with
  | .loadHead call | .loadRead call _ | .casPad call _ | .writePad call _ | .publishPad call _
  | .bumpPad call _ | .casSlot call _ | .writeSlot call _ =>
    call = callOf number ∧ ring.pending = false
  | .idle => ∃ result, ring.returned = some result ∧
      ((result.status = .full ∧ ring.pending = false) ∨
        (result.status = .ok ∧ Reserved ring number result.position))
  | .copyPayload _ _ _ | .readSlotSize _ | .publishSlot _ _ | .bumpSlot => False

/-- The producer is inside `commit`, with its message in the slot. -/
def Committing (ring : Varlen.State) (number : UInt64) : Prop :=
  match ring.writerPc with
  | .readSlotSize _ | .publishSlot _ _ => ring.pending = true ∧ ring.log.draft = messageOf number
  | .bumpSlot | .idle => ring.pending = false
  | _ => False

def ProducerOk (ring : Varlen.State) (sent : UInt64) : ProducerPc → Prop
  | .test | .loadWake | .waitWake _ => ring.writerPc = .idle ∧ ring.pending = false ∧ sent ≤ messages
  | .reserving => sent < messages ∧ Reserving ring sent
  | .fill position => sent < messages ∧ Reserved ring sent position
  | .commit position => sent < messages ∧ Reserved ring sent position ∧
    ring.log.draft = messageOf sent
  | .committing => sent < messages ∧ Committing ring sent
  | .storeDone | .join => ring.writerPc = .idle ∧ ring.pending = false ∧ sent = messages

/-- The messages that the consumer's calls have accepted. -/
def accepted (ring : Varlen.State) : Nat := ring.log.acceptedMessages.length

/-- The consumer is inside `read`, after as many messages as it has counted. -/
def Reading (ring : Varlen.State) (drained : UInt64) : Prop :=
  match ring.readerPc with
  | .idle => accepted ring = drained.toNat + if (received ring).isSome then 1 else 0
  | .consumeSize _ | .consumeStore _ _ | .consumeBump =>
    (received ring).isSome ∧ accepted ring = drained.toNat + 1
  | .loadRead call | .loadCommit call _ | .checkPublished call _ _ | .checkWhole call _ _
  | .checkPadding call _ | .skipSize call _ | .skipStore call _ _ | .skipBump call
  | .takeSize call _ | .takeMeta call _ _ | .handle call _ _ _ =>
    call = .copy true bufferSize ∧ accepted ring = drained.toNat

def ConsumerOk (ring : Varlen.State) (drained : UInt64) : ConsumerPc → Prop
  | .read | .testDone | .loadSeq | .waitCommit _ | .left =>
    ring.readerPc = .idle ∧ accepted ring = drained.toNat
  | .reading => Reading ring drained

/-- The invariant of the channel. -/
structure Streaming (channel : Channel) : Prop where
  inv : ∃ slots, Inv block channel.ring slots
  recorded : Recorded channel.ring
  published : channel.ring.log.published = numbered channel.published
  producer : ProducerOk messages channel.ring channel.sent channel.producer
  consumer : ConsumerOk channel.ring channel.drained channel.consumer
  matched : channel.mismatches = 0
  expected : channel.unexpected = false
  closed : channel.done = true → channel.producer = .join
  finished : channel.consumer = .left → channel.done = true

/-- The bytes that a message takes at least in the ring. -/
def leastSize (message : Message) : Nat := 32 + message.payload.length

/-- What the channel shows in every state of a run. No thread is stuck, so no call is
refused and no byte is written outside the slot it is meant for; once the consumer has
left, what it did not receive fits the ring. -/
structure Delivers (channel : Channel) : Prop where
  expected : channel.unexpected = false
  matched : channel.mismatches = 0
  inOrder : channel.ring.log.acceptedMessages <+: numbered messages.toNat
  producing : channel.producer ≠ .join → ∃ next, producerStep block messages channel = some next
  consuming : channel.consumer ≠ .left → ∃ next, consumerStep block channel = some next
  received : channel.consumer = .left →
    channel.ring.log.acceptedMessages = numbered channel.drained.toNat
  remaining : channel.consumer = .left →
    (((numbered messages.toNat).drop channel.drained.toNat).map leastSize).sum ≤
      block.dataCapacity.toNat

end Predicates

section Messages

variable (number : UInt64)

theorem toNat_lengthOf : (lengthOf number).toNat = 1 + number.toNat % 31 := by
  have small := Nat.mod_lt number.toNat (show 31 > 0 by decide)
  rw [lengthOf, UInt64.toNat_toUInt32, toNat_add (by rw [UInt64.toNat_mod]; simp; omega),
    UInt64.toNat_mod]
  simp
  omega

theorem lengthOf_bounds : 0 < (lengthOf number).toNat ∧ (lengthOf number).toNat ≤ 31 := by
  have small := Nat.mod_lt number.toNat (show 31 > 0 by decide)
  rw [toNat_lengthOf]
  omega

theorem length_messageOf : (messageOf number).payload.length = (lengthOf number).toNat := by
  simp [messageOf]

theorem deliverable_numbered (count : Nat) : deliverable (numbered count) = numbered count := by
  unfold deliverable numbered
  rw [List.filter_eq_self]
  intro message present
  obtain ⟨number, -, rfl⟩ := List.mem_map.mp present
  have positive := (lengthOf_bounds (UInt64.ofNat number)).1
  rw [← length_messageOf] at positive
  simpa using List.ne_nil_of_length_pos positive

theorem numbered_succ (count : UInt64) :
    numbered (count.toNat + 1) = numbered count.toNat ++ [messageOf count] := by
  unfold numbered
  rw [List.range_succ, List.map_append]
  simp

theorem numbered_getElem? {count index : Nat} {message : Message}
    (found : (numbered count)[index]? = some message) :
    index < count ∧ message = messageOf (UInt64.ofNat index) := by
  unfold numbered at found
  rw [List.getElem?_map, Option.map_eq_some_iff] at found
  obtain ⟨number, listed, rfl⟩ := found
  obtain ⟨below, rfl⟩ := List.getElem?_eq_some_iff.mp listed
  simp at below ⊢
  exact below

theorem numbered_take {count stop : Nat} (within : count ≤ stop) :
    (numbered stop).take count = numbered count := by
  unfold numbered
  rw [← List.map_take, List.take_range, Nat.min_eq_left within]

theorem fits_lengthOf {block : ControlBlock} (fitting : Fitting block) :
    ¬ (neededFor block (lengthOf number)).toUInt64 > block.dataCapacity := by
  have most := (lengthOf_bounds number).2
  have longest := fitting.longest
  have exactly : exactSlotSize block (lengthOf number) ≤ exactSlotSize block 31 := by
    unfold exactSlotSize
    apply Nat.mul_le_mul_right
    apply Nat.div_le_div_right
    have same : (31 : UInt32).toNat = 31 := rfl
    omega
  have least : (neededFor block (lengthOf number)).toNat ≤ exactSlotSize block (lengthOf number) :=
    neededFor_le_exact fitting.shape
  rw [gt_iff_lt, UInt64.lt_iff_toNat_lt, UInt32.toNat_toUInt64]
  omega

end Messages

section Ring

variable {block : ControlBlock} {ring next : Varlen.State} {number drained : UInt64}

theorem reserving_writerStep (reserving : Reserving ring number)
    (taken : writerStep block ring = some next) :
    Reserving next number ∧ next.log.published = ring.log.published := by
  cases here : ring.writerPc with
  | idle => simp [writerStep, here] at taken
  | loadRead call head =>
    simp only [Reserving, here] at reserving
    simp only [writerStep, here] at taken
    split at taken
    · cases taken
      exact ⟨⟨_, rfl, .inl ⟨rfl, reserving.2⟩⟩, rfl⟩
    · split at taken <;> cases taken <;> exact ⟨reserving, rfl⟩
  | casPad call head | casSlot call head =>
    simp only [Reserving, here] at reserving
    simp only [writerStep, here] at taken
    split at taken <;> cases taken <;> exact ⟨reserving, rfl⟩
  | writeSlot call head =>
    simp only [Reserving, here] at reserving
    obtain ⟨rfl, -⟩ := reserving
    have plain (state : Varlen.State) : state.afterReserve (callOf number) head =
        { state with writerPc := .idle } := afterReserve_plain state head rfl rfl
    simp only [writerStep, here, plain] at taken
    cases taken
    exact ⟨⟨_, rfl, .inr ⟨rfl, rfl, rfl, rfl, rfl, by simp [State.writeSlot, callOf], rfl⟩⟩, rfl⟩
  | loadHead _ | writePad _ _ | publishPad _ _ | bumpPad _ _ =>
    simp only [Reserving, here] at reserving
    simp only [writerStep, here] at taken
    cases taken
    exact ⟨reserving, rfl⟩
  | copyPayload _ _ _ | readSlotSize _ | publishSlot _ _ | bumpSlot =>
    simp [Reserving, here] at reserving

/-- Of the steps of `commit` only the store of the front publishes the message. -/
theorem committing_writerStep (committing : Committing ring number)
    (taken : writerStep block ring = some next) :
    Committing next number ∧
      ((next.pending = ring.pending ∧ next.log.published = ring.log.published) ∨
        (ring.pending = true ∧ next.pending = false ∧
          next.log.published = ring.log.published ++ [messageOf number])) := by
  cases here : ring.writerPc with
  | idle => simp [writerStep, here] at taken
  | publishSlot position slotSize =>
    simp only [Committing, here] at committing
    simp only [writerStep, here] at taken
    cases taken
    refine ⟨rfl, .inr ⟨committing.1, rfl, ?_⟩⟩
    rw [Log.commit, committing.2]
  | readSlotSize _ | bumpSlot =>
    simp only [Committing, here] at committing
    simp only [writerStep, here] at taken
    cases taken
    exact ⟨committing, .inl ⟨rfl, rfl⟩⟩
  | loadHead _ | loadRead _ _ | casPad _ _ | writePad _ _ | publishPad _ _ | bumpPad _ _
  | casSlot _ _ | writeSlot _ _ | copyPayload _ _ _ => simp [Committing, here] at committing

section Fill

variable {position : UInt64} (reserved : Reserved ring number position)
include reserved

/-- The message goes exactly into the payload area of its slot. -/
theorem Reserved.fill_fits : ring.pending = true ∧
    0 + (messageOf number).payload.length ≤ ring.requested.toNat := by
  refine ⟨reserved.guarded, ?_⟩
  rw [length_messageOf, reserved.requested, Nat.zero_add]

theorem Reserved.fill_draft :
    (ring.fill block 0 (messageOf number).payload).log.draft = messageOf number := by
  have size : ring.log.draft.payload.length ≤ (messageOf number).payload.length := by
    rw [length_messageOf, reserved.size]
  have payload : Memory.patch ring.log.draft.payload 0 (messageOf number).payload =
      (messageOf number).payload := by
    simp [Memory.patch, List.drop_eq_nil_of_le size]
  simp only [State.fill, Log.fill, payload, reserved.sameMeta]
  rfl

theorem Reserved.fill : Reserved (ring.fill block 0 (messageOf number).payload) number position where
  idle := reserved.idle
  guarded := reserved.guarded
  last := reserved.last
  requested := reserved.requested
  size := by rw [reserved.fill_draft, length_messageOf]
  sameMeta := by rw [reserved.fill_draft, messageOf]

end Fill

theorem accepted_finishRead (log : Log) (outcome : ReadOutcome) :
    (log.finishRead outcome).acceptedMessages =
      log.acceptedMessages ++ outcome.acceptedMessage.toList := by
  cases outcome <;> simp [Log.finishRead, Log.acceptedMessages, ReadOutcome.acceptedMessage]

/-- A call that finds nothing returns with as many messages as before. -/
theorem reading_empty (counted : accepted ring = drained.toNat) :
    Reading ring.finishEmpty drained := by
  have same : accepted ring.finishEmpty = accepted ring := by
    rw [accepted, State.finishEmpty, State.finishRead, accepted_finishRead]
    simp [ReadOutcome.acceptedMessage, accepted]
  have nothing : received ring.finishEmpty = none := rfl
  show accepted ring.finishEmpty = _
  rw [same, nothing]
  simpa using counted

theorem reading_readerStep (reading : Reading ring drained)
    (short : ∀ call readPos payloadSize messageMeta,
      ring.readerPc = .handle call readPos payloadSize messageMeta → payloadSize ≤ bufferSize)
    (taken : readerStep block true ring = some next) : Reading next drained := by
  cases here : ring.readerPc with
  | idle => simp [readerStep, here] at taken
  | loadCommit call readPos =>
    simp only [Reading, here] at reading
    simp only [readerStep, here] at taken
    split at taken <;> split at taken <;> cases taken
    · exact reading_empty reading.2
    · exact reading
    · exact reading_empty reading.2
    · exact reading
  | checkPublished call readPos used | checkWhole call readPos used =>
    simp only [Reading, here] at reading
    simp only [readerStep, here] at taken
    split at taken <;> cases taken
    · exact reading_empty reading.2
    · exact reading
  | checkPadding call readPos =>
    simp only [Reading, here] at reading
    simp only [readerStep, here] at taken
    split at taken <;> cases taken <;> exact reading
  | handle call readPos payloadSize messageMeta =>
    simp only [Reading, here] at reading
    obtain ⟨rfl, counted⟩ := reading
    have fits := short _ _ _ _ here
    have accepts : (ReadCall.copy true bufferSize).accepts payloadSize true = true := by
      simp [ReadCall.accepts, UInt32.not_lt.mpr fits]
    simp only [readerStep, here, accepts, if_true] at taken
    cases taken
    refine ⟨rfl, ?_⟩
    rw [accepted, State.finishRead, accepted_finishRead, List.length_append]
    simpa [ReadOutcome.acceptedMessage, accepted] using counted
  | loadRead _ | skipSize _ _ | skipStore _ _ _ | skipBump _ | takeSize _ _ | takeMeta _ _ _
  | consumeSize _ | consumeStore _ _ =>
    simp only [Reading, here] at reading
    simp only [readerStep, here] at taken
    cases taken
    exact reading
  | consumeBump =>
    simp only [Reading, here] at reading
    simp only [readerStep, here] at taken
    cases taken
    have taken : (received ring).isSome = true := reading.1
    simp only [Reading]
    show accepted ring = drained.toNat + if (received ring).isSome then 1 else 0
    rw [if_pos taken]
    exact reading.2

end Ring

section Frames

variable {block : ControlBlock} {messages : UInt64} {before after : Varlen.State}
variable {number sent drained position : UInt64}

theorem Reserved.kept (reserved : Reserved before number position) (kept : ConsumerFrame before after) :
    Reserved after number position where
  idle := kept.writerPc.trans reserved.idle
  guarded := kept.pending.trans reserved.guarded
  last := kept.lastPosition.trans reserved.last
  requested := kept.requested.trans reserved.requested
  size := kept.draft ▸ reserved.size
  sameMeta := kept.draft ▸ reserved.sameMeta

theorem Reserving.kept (reserving : Reserving before number) (kept : ConsumerFrame before after) :
    Reserving after number := by
  unfold Reserving at reserving ⊢
  rw [kept.writerPc]
  cases here : before.writerPc <;> simp only [here] at reserving ⊢
  case idle =>
    obtain ⟨result, returned, refused | granted⟩ := reserving
    · exact ⟨result, kept.returned.trans returned, .inl ⟨refused.1, kept.pending.trans refused.2⟩⟩
    · exact ⟨result, kept.returned.trans returned, .inr ⟨granted.1, granted.2.kept kept⟩⟩
  all_goals exact ⟨reserving.1, kept.pending.trans reserving.2⟩

theorem Committing.kept (committing : Committing before number) (kept : ConsumerFrame before after) :
    Committing after number := by
  unfold Committing at committing ⊢
  rw [kept.writerPc, kept.pending, kept.draft]
  exact committing

theorem ProducerOk.kept {pc : ProducerPc} (ok : ProducerOk messages before sent pc)
    (kept : ConsumerFrame before after) : ProducerOk messages after sent pc := by
  cases pc with
  | test | loadWake | waitWake _ | storeDone | join =>
    exact ⟨kept.writerPc.trans ok.1, kept.pending.trans ok.2.1, ok.2.2⟩
  | reserving => exact ⟨ok.1, ok.2.kept kept⟩
  | fill position => exact ⟨ok.1, ok.2.kept kept⟩
  | commit position => exact ⟨ok.1, ok.2.1.kept kept, kept.draft.trans ok.2.2⟩
  | committing => exact ⟨ok.1, ok.2.kept kept⟩

theorem ConsumerOk.kept {pc : ConsumerPc} (ok : ConsumerOk before drained pc)
    (frame : ProducerFrame before after) : ConsumerOk after drained pc := by
  have same : accepted after = accepted before := by
    rw [accepted, Log.acceptedMessages, frame.reads, accepted, Log.acceptedMessages]
  have told : received after = received before := by
    rw [received, frame.result, received]
  cases pc with
  | reading =>
    simp only [ConsumerOk, Reading, frame.readerPc, same, told] at ok ⊢
    exact ok
  | read | testDone | loadSeq | waitCommit _ | left =>
    exact ⟨frame.readerPc.trans ok.1, same.trans ok.2⟩

theorem producerFrame_of_step {action : Action} (acts : action.actor = .producer)
    (single : action ≠ .restart) (taken : step block before action = some after) :
    ProducerFrame before after := by
  rcases ends_step single taken with ⟨-, -, frame⟩ | ⟨other, -⟩
  · exact frame
  · rw [acts] at other
    cases other

end Frames

/-- The fronts of the ring stay clear of the end of their range. -/
def Bounded (block : ControlBlock) (before : Channel) (_ : Role) (_ : Channel) : Prop :=
  NoWrap block before.ring

instance (block : ControlBlock) (before : Channel) (role : Role) (after : Channel) :
    Decidable (Bounded block before role after) :=
  inferInstanceAs (Decidable (NoWrap block before.ring))

variable {block : ControlBlock} {messages : UInt64} {channel : Channel}

section Producer

variable (fitting : Fitting block) (small : NoWrap block channel.ring)
variable (streaming : Streaming block messages channel) (opened : channel.done = false)
include streaming opened

/-- A step of the producer outside the ring. -/
theorem Streaming.pass {sent : UInt64} {pc : ProducerPc}
    (ok : ProducerOk messages channel.ring sent pc)
    (same : Channel.published { channel with sent, producer := pc } = channel.published) :
    Streaming block messages { channel with sent, producer := pc } := by
  refine { streaming with published := ?_, producer := ok, closed := ?_ }
  · rw [same]
    exact streaming.published
  · intro closed
    simp [opened] at closed

include fitting small

/-- A step of the producer inside the ring. -/
theorem Streaming.produce {next : Varlen.State} {action : Action} (pc : ProducerPc)
    (taken : step block channel.ring action = some next) (acts : action.actor = .producer)
    (single : action ≠ .restart) (limit : action.WithinLimit)
    (ok : ProducerOk messages next channel.sent pc)
    (published : next.log.published =
      numbered (Channel.published { channel with ring := next, producer := pc })) :
    Streaming block messages { channel with ring := next, producer := pc } := by
  obtain ⟨slots, inv⟩ := streaming.inv
  have orderly : Orderly block channel.ring action next :=
    SingleSession.orderly fitting.shape ⟨limit, small, single⟩
  obtain ⟨more, kept, -⟩ := inv_step fitting.shape inv orderly taken
  refine { streaming with
    inv := ⟨more, kept⟩
    recorded := recorded_step streaming.recorded taken
    published := published
    producer := ok
    consumer := streaming.consumer.kept (producerFrame_of_step acts single taken)
    closed := ?_ }
  intro closed
  simp [opened] at closed

theorem Streaming.reserve {next : Varlen.State} (here : channel.producer = .reserving)
    (taken : step block channel.ring .writer = some next) :
    Streaming block messages { channel with ring := next, producer := .reserving } := by
  have kind := streaming.producer
  have published := streaming.published
  simp only [ProducerOk, here] at kind
  simp only [Channel.published, here] at published
  obtain ⟨inside, same⟩ := reserving_writerStep kind.2 taken
  exact streaming.produce fitting small opened .reserving taken rfl (by simp) trivial
    ⟨kind.1, inside⟩ (same.trans published)

theorem Streaming.commit {next : Varlen.State} (here : channel.producer = .committing)
    (taken : step block channel.ring .writer = some next) :
    Streaming block messages { channel with ring := next, producer := .committing } := by
  have kind := streaming.producer
  have published := streaming.published
  simp only [ProducerOk, here] at kind
  simp only [Channel.published, here] at published
  obtain ⟨inside, still⟩ := committing_writerStep kind.2 taken
  refine streaming.produce fitting small opened .committing taken rfl (by simp) trivial
    ⟨kind.1, inside⟩ ?_
  rcases still with ⟨pending, same⟩ | ⟨guarded, free, stored⟩
  · rw [same, published]
    simp only [Channel.published, pending]
  · rw [stored, published, if_pos guarded, ← numbered_succ]
    simp [Channel.published, free]

omit opened in
theorem streaming_producer {after : Channel}
    (taken : producerStep block messages channel = some after) : Streaming block messages after := by
  have kind := streaming.producer
  have published := streaming.published
  have opened : channel.done = false := by
    by_contra ended
    have joined := streaming.closed (by simpa using ended)
    simp [producerStep, joined] at taken
  cases here : channel.producer with
  | test =>
    simp only [ProducerOk, here] at kind
    obtain ⟨idle, free, within⟩ := kind
    simp only [producerStep, here] at taken
    split at taken
    · rename_i more
      obtain ⟨next, moved, rfl⟩ := Option.map_eq_some_iff.mp taken
      have begun := moved
      simp only [step, idle, tryReserve, State.beginReserve, free, Bool.false_eq_true, if_false,
        if_neg (fits_lengthOf channel.sent fitting), Option.some.injEq] at begun
      refine streaming.produce fitting small opened .reserving moved rfl (by simp [tryReserve]) ?_
        ⟨more, ?_⟩ ?_
      · have most := (lengthOf_bounds channel.sent).2
        show (lengthOf channel.sent).toNat ≤ payloadLimit
        unfold payloadLimit
        omega
      · rw [← begun]
        exact ⟨rfl, rfl⟩
      · rw [← begun]
        simpa [Channel.published, here] using published
    · rename_i last
      cases taken
      refine streaming.pass opened ⟨idle, free, ?_⟩ (by simp [Channel.published, here])
      exact UInt64.le_antisymm within (UInt64.not_lt.mp last)
  | reserving =>
    simp only [producerStep, here] at taken
    split at taken
    · rename_i returned
      rw [WriterPc.isIdle_iff] at returned
      simp only [ProducerOk, here, Reserving, returned] at kind
      obtain ⟨more, result, told, refused | granted⟩ := kind
      · simp only [told, Option.map_some, Channel.answer, refused.1, if_true] at taken
        cases taken
        exact streaming.pass opened ⟨returned, refused.2, Nat.le_of_lt more⟩
          (by simp [Channel.published, here])
      · simp only [told, Option.map_some, Channel.answer, granted.1, ne_eq, not_true_eq_false,
          if_false, reduceCtorEq] at taken
        cases taken
        exact streaming.pass opened ⟨more, granted.2⟩ (by simp [Channel.published, here])
    · obtain ⟨next, moved, rfl⟩ := Option.map_eq_some_iff.mp taken
      exact streaming.reserve fitting small opened here moved
  | loadWake | waitWake wake =>
    simp only [ProducerOk, here] at kind
    simp only [producerStep, here] at taken
    cases taken
    exact streaming.pass opened kind (by simp [Channel.published, here])
  | fill position =>
    simp only [ProducerOk, here] at kind
    obtain ⟨more, reserved⟩ := kind
    simp only [producerStep, here] at taken
    obtain ⟨next, moved, rfl⟩ := Option.map_eq_some_iff.mp taken
    have filled := moved
    simp only [step, reserved.idle, if_pos reserved.fill_fits, Option.some.injEq] at filled
    subst filled
    refine streaming.produce fitting small opened (.commit position) moved rfl (by simp) trivial
      ⟨more, reserved.fill, reserved.fill_draft⟩ ?_
    rw [Channel.published, here] at published
    exact published
  | commit position =>
    simp only [ProducerOk, here] at kind
    obtain ⟨more, reserved, drafted⟩ := kind
    simp only [producerStep, here] at taken
    obtain ⟨next, moved, rfl⟩ := Option.map_eq_some_iff.mp taken
    have begun := moved
    simp only [step, reserved.idle, State.beginCommit, reserved.guarded, reserved.last, bne_self_eq_false,
      Bool.not_true, Bool.or_self, Bool.false_eq_true, if_false, Option.some.injEq] at begun
    refine streaming.produce fitting small opened .committing moved rfl (by simp) trivial ⟨more, ?_⟩ ?_
    · rw [← begun]
      exact ⟨rfl, drafted⟩
    · rw [← begun]
      simpa [Channel.published, here, reserved.guarded] using published
  | committing =>
    simp only [producerStep, here] at taken
    split at taken
    · rename_i returned
      rw [WriterPc.isIdle_iff] at returned
      simp only [ProducerOk, here, Committing, returned] at kind
      cases taken
      have counted := toNat_succ kind.1
      refine streaming.pass opened ⟨returned, kind.2, UInt64.le_iff_toNat_le.mpr ?_⟩ ?_
      · rw [counted]
        exact UInt64.lt_iff_toNat_lt.mp kind.1
      · simp [Channel.published, here, kind.2, counted]
    · obtain ⟨next, moved, rfl⟩ := Option.map_eq_some_iff.mp taken
      exact streaming.commit fitting small opened here moved
  | storeDone =>
    simp only [ProducerOk, here] at kind
    simp only [producerStep, here] at taken
    cases taken
    refine { streaming with
      published := ?_, producer := kind, closed := fun _ => rfl, finished := fun _ => rfl }
    simpa [Channel.published, here] using published
  | join => simp [producerStep, here] at taken

end Producer

section Consumer

variable (fitting : Fitting block) (small : NoWrap block channel.ring)
variable (streaming : Streaming block messages channel)
include streaming

/-- What the consumer has accepted are the first messages. -/
theorem Streaming.accepted_prefix :
    channel.ring.log.acceptedMessages <+: numbered channel.published := by
  obtain ⟨slots, inv⟩ := streaming.inv
  have delivered := inv.accepted_prefix
  rwa [streaming.published, deliverable_numbered] at delivered

theorem Streaming.published_le : channel.published ≤ messages.toNat := by
  have kind := streaming.producer
  unfold Channel.published
  cases here : channel.producer with
  | committing =>
    simp only [ProducerOk, here] at kind
    have below := UInt64.lt_iff_toNat_lt.mp kind.1
    dsimp only
    split <;> omega
  | test | loadWake | waitWake _ =>
    simp only [ProducerOk, here] at kind
    exact UInt64.le_iff_toNat_le.mp kind.2.2
  | reserving | fill _ | commit _ =>
    simp only [ProducerOk, here] at kind
    exact Nat.le_of_lt (UInt64.lt_iff_toNat_lt.mp kind.1)
  | storeDone | join =>
    simp only [ProducerOk, here] at kind
    rw [kind.2.2]

/-- Every message the consumer looks at fits its buffer. -/
theorem Streaming.short (call : ReadCall) (readPos : UInt64) (payloadSize : UInt32)
    (messageMeta : MessageMeta)
    (here : channel.ring.readerPc = .handle call readPos payloadSize messageMeta) :
    payloadSize ≤ bufferSize := by
  obtain ⟨slots, inv⟩ := streaming.inv
  have next := (inv.offered here).next
  rw [streaming.published, deliverable_numbered] at next
  obtain ⟨-, same⟩ := numbered_getElem? next
  have size := congrArg (fun message => message.payload.length) same
  simp only [State.view, Memory.length_read, length_messageOf] at size
  have most := (lengthOf_bounds (UInt64.ofNat channel.ring.log.acceptedMessages.length)).2
  rw [UInt32.le_iff_toNat_le]
  show payloadSize.toNat ≤ 512
  omega

/-- The number in a message just accepted is the count of those before it. -/
theorem Streaming.number_eq {messageMeta : MessageMeta}
    (counted : accepted channel.ring = channel.drained.toNat + 1)
    (told : received channel.ring = some messageMeta) : messageMeta.userData = channel.drained := by
  have accepted := streaming.accepted_prefix
  unfold received at told
  split at told
  · rename_i offer last
    cases told
    obtain ⟨earlier, reads⟩ := List.getLast?_eq_some_iff.mp (streaming.recorded.trans last)
    have split : channel.ring.log.acceptedMessages =
        earlier.filterMap ReadOutcome.acceptedMessage ++ [offer.message] := by
      rw [Log.acceptedMessages, reads]
      simp [ReadOutcome.acceptedMessage]
    have length : (earlier.filterMap ReadOutcome.acceptedMessage).length = channel.drained.toNat := by
      rw [VarlenChannel.accepted, split] at counted
      simpa using counted
    rw [split] at accepted
    obtain ⟨rest, whole⟩ := accepted
    have found : (numbered channel.published)[channel.drained.toNat]? = some offer.message := by
      rw [← whole, ← length]
      simp
    obtain ⟨-, same⟩ := numbered_getElem? found
    rw [same]
    simp [messageOf, metaOf]
  · cases told

/-- A step of the consumer outside the ring. -/
theorem Streaming.turn (drained : UInt64) (pc : ConsumerPc)
    (ok : ConsumerOk channel.ring drained pc) (finished : pc = .left → channel.done = true) :
    Streaming block messages { channel with drained, consumer := pc } :=
  { streaming with consumer := ok, finished := finished }

include fitting small

/-- A step of the consumer inside the ring. -/
theorem Streaming.consume {next : Varlen.State} {action : Action}
    (taken : step block channel.ring action = some next) (acts : action.actor = .consumer)
    (kept : ConsumerFrame channel.ring next) (ok : Reading next channel.drained) :
    Streaming block messages { channel with ring := next, consumer := .reading } := by
  obtain ⟨slots, inv⟩ := streaming.inv
  have single : action ≠ .restart := by
    rintro rfl
    cases acts
  have limit : action.WithinLimit := by
    cases action with
    | read _ | reader _ => trivial
    | call _ | fill _ _ | writer | restart => cases acts
  have orderly : Orderly block channel.ring action next :=
    SingleSession.orderly fitting.shape ⟨limit, small, single⟩
  obtain ⟨more, inv, -⟩ := inv_step fitting.shape inv orderly taken
  refine { streaming with
    inv := ⟨more, inv⟩
    recorded := recorded_step streaming.recorded taken
    published := ?_
    producer := streaming.producer.kept kept
    consumer := ok
    finished := by simp }
  have published := streaming.published
  unfold Channel.published at published ⊢
  rw [kept.published, kept.pending]
  exact published

theorem streaming_consumer {after : Channel} (taken : consumerStep block channel = some after) :
    Streaming block messages after := by
  have kind := streaming.consumer
  cases here : channel.consumer with
  | read =>
    simp only [ConsumerOk, here] at kind
    simp only [consumerStep, here] at taken
    obtain ⟨next, moved, rfl⟩ := Option.map_eq_some_iff.mp taken
    have begun := moved
    simp only [step, kind.1, Option.some.injEq] at begun
    subst begun
    exact streaming.consume fitting small moved rfl (.of_consumer channel.ring _ _ _ _ _) ⟨rfl, kind.2⟩
  | reading =>
    simp only [ConsumerOk, here] at kind
    simp only [consumerStep, here] at taken
    split at taken
    · rename_i returned
      have idle := ReaderPc.isIdle_iff.mp returned
      simp only [Reading, idle] at kind
      split at taken <;> cases taken
      · rename_i messageMeta told
        simp only [told, Option.isSome_some, if_true] at kind
        have same := streaming.number_eq kind told
        have counted : (channel.drained + 1).toNat = channel.drained.toNat + 1 := by
          have most := streaming.accepted_prefix.length_le
          have within := streaming.published_le
          have size := messages.toNat_lt
          have number : (numbered channel.published).length = channel.published := by
            simp [numbered]
          rw [number] at most
          exact toNat_add (by
            show channel.drained.toNat + 1 < 2 ^ 64
            unfold accepted at kind
            omega)
        have result := streaming.turn (channel.drained + 1) .read ⟨idle, kind.trans counted.symm⟩
          (by simp)
        simpa [Channel.receive, same] using result
      · rename_i told
        simp only [told, Option.isSome_none, Bool.false_eq_true, if_false, Nat.add_zero] at kind
        exact streaming.turn channel.drained .testDone ⟨idle, kind⟩ (by simp)
    · obtain ⟨next, moved, rfl⟩ := Option.map_eq_some_iff.mp taken
      exact streaming.consume fitting small moved rfl (readerStep_frame moved)
        (reading_readerStep kind streaming.short moved)
  | testDone =>
    simp only [ConsumerOk, here] at kind
    simp only [consumerStep, here] at taken
    split at taken <;> cases taken
    · rename_i done
      exact streaming.turn channel.drained .left kind fun _ => done
    · exact streaming.turn channel.drained .loadSeq kind (by simp)
  | loadSeq =>
    simp only [ConsumerOk, here] at kind
    simp only [consumerStep, here] at taken
    cases taken
    exact streaming.turn channel.drained (.waitCommit _) kind (by simp)
  | waitCommit seq =>
    simp only [ConsumerOk, here] at kind
    simp only [consumerStep, here] at taken
    cases taken
    exact streaming.turn channel.drained .read kind (by simp)
  | left => simp [consumerStep, here] at taken

end Consumer

section Progress

theorem reader_enabled {ring : Varlen.State} (busy : ring.readerPc ≠ .idle) :
    ∃ next, step block ring (.reader true) = some next := by
  simp only [step, readerStep]
  cases here : ring.readerPc with
  | idle => exact absurd here busy
  | loadCommit _ _ =>
    dsimp only
    split <;> split <;> exact ⟨_, rfl⟩
  | checkPublished _ _ _ | checkWhole _ _ _ | checkPadding _ _ | handle _ _ _ _ =>
    dsimp only
    split <;> exact ⟨_, rfl⟩
  | loadRead _ | skipSize _ _ | skipStore _ _ _ | skipBump _ | takeSize _ _ | takeMeta _ _ _
  | consumeSize _ | consumeStore _ _ | consumeBump => exact ⟨_, rfl⟩

variable (streaming : Streaming block messages channel)
include streaming

theorem Streaming.producing (busy : channel.producer ≠ .join) :
    ∃ next, producerStep block messages channel = some next := by
  have kind := streaming.producer
  cases here : channel.producer with
  | test =>
    simp only [ProducerOk, here] at kind
    simp only [producerStep, here, step, tryReserve, kind.1]
    split <;> exact ⟨_, rfl⟩
  | reserving =>
    simp only [ProducerOk, here] at kind
    simp only [producerStep, here]
    split
    · rename_i returned
      rw [WriterPc.isIdle_iff] at returned
      simp only [Reserving, returned] at kind
      obtain ⟨-, result, told, -⟩ := kind
      exact ⟨_, by rw [told]; rfl⟩
    · rename_i inside
      rw [WriterPc.isIdle_iff] at inside
      obtain ⟨next, taken⟩ : ∃ next, step block channel.ring .writer = some next :=
        writer_enabled inside
      exact ⟨_, by rw [taken]; rfl⟩
  | fill position =>
    simp only [ProducerOk, here] at kind
    simp only [producerStep, here, step, kind.2.idle, if_pos kind.2.fill_fits]
    exact ⟨_, rfl⟩
  | commit position =>
    simp only [ProducerOk, here] at kind
    simp only [producerStep, here, step, kind.2.1.idle]
    exact ⟨_, rfl⟩
  | committing =>
    simp only [producerStep, here]
    split
    · exact ⟨_, rfl⟩
    · rename_i inside
      rw [WriterPc.isIdle_iff] at inside
      obtain ⟨next, taken⟩ : ∃ next, step block channel.ring .writer = some next :=
        writer_enabled inside
      exact ⟨_, by rw [taken]; rfl⟩
  | loadWake | waitWake _ | storeDone =>
    simp only [producerStep, here]
    exact ⟨_, rfl⟩
  | join => exact absurd here busy

theorem Streaming.consuming (busy : channel.consumer ≠ .left) :
    ∃ next, consumerStep block channel = some next := by
  have kind := streaming.consumer
  cases here : channel.consumer with
  | read =>
    simp only [ConsumerOk, here] at kind
    simp only [consumerStep, here, step, kind.1]
    exact ⟨_, rfl⟩
  | reading =>
    simp only [consumerStep, here]
    split
    · split <;> exact ⟨_, rfl⟩
    · rename_i inside
      have inside : channel.ring.readerPc ≠ .idle := fun idle =>
        inside (ReaderPc.isIdle_iff.mpr idle)
      obtain ⟨next, taken⟩ : ∃ next, step block channel.ring (.reader true) = some next :=
        reader_enabled inside
      exact ⟨_, by rw [taken]; rfl⟩
  | testDone =>
    simp only [consumerStep, here]
    split <;> exact ⟨_, rfl⟩
  | loadSeq | waitCommit _ =>
    simp only [consumerStep, here]
    exact ⟨_, rfl⟩
  | left => exact absurd here busy

end Progress

/-- The messages in a tiled interval take at least their headers and payloads. -/
theorem leastSize_le {data : Memory} {log : Log} {start stop : Nat} {slots : List Slot}
    (tiled : Tiled Slot.size (Live block data log) start slots stop) :
    start + ((undelivered slots).map leastSize).sum ≤ stop := by
  induction slots generalizing start with
  | nil => exact Nat.le_of_eq tiled
  | cons slot rest ih =>
    have later := ih tiled.2
    have placed := tiled.1.1
    by_cases empty : slot.payload = []
    · have skipped : undelivered (slot :: rest) = undelivered rest := by
        simp [undelivered, deliverable, Slot.message, empty]
      rw [skipped]
      omega
    · have front : undelivered (slot :: rest) = slot.message :: undelivered rest := by
        simp [undelivered, deliverable, Slot.message, empty]
      have size : leastSize slot.message ≤ slot.size := by
        have length := length_payload placed
        rcases placed.shape with roomy | ⟨none, -⟩
        · show 32 + slot.payload.length ≤ slot.size
          omega
        · exact absurd ((payload_eq_nil placed).mpr none) empty
      rw [front, List.map_cons, List.sum_cons]
      omega

section Outcome

variable (streaming : Streaming block messages channel) (left : channel.consumer = .left)
include streaming left

theorem Streaming.all_published : channel.published = messages.toNat := by
  have kind := streaming.producer
  have joined := streaming.closed (streaming.finished left)
  simp only [ProducerOk, joined] at kind
  rw [Channel.published, joined, kind.2.2]

theorem Streaming.delivered_eq : ∃ slots, Inv block channel.ring slots ∧
    numbered messages.toNat = channel.ring.log.acceptedMessages ++ undelivered slots ∧
      channel.ring.log.acceptedMessages.length = channel.drained.toNat := by
  obtain ⟨slots, inv⟩ := streaming.inv
  have kind := streaming.consumer
  simp only [ConsumerOk, left] at kind
  have messages := inv.delivery.messages
  rw [kind.1] at messages
  refine ⟨slots, inv, ?_, kind.2⟩
  rw [← streaming.all_published left, ← deliverable_numbered, ← streaming.published]
  simpa [ReaderPc.consuming] using messages

end Outcome

theorem streaming_initial (data : Memory) (fresh : block.rbMeta = {}) :
    Streaming block messages (initial block data) where
  inv := ⟨[], inv_initial data (.of_eq fresh)⟩
  recorded := rfl
  published := rfl
  producer := ⟨rfl, rfl, by simp [initial]⟩
  consumer := ⟨rfl, rfl⟩
  matched := rfl
  expected := rfl
  closed := by simp [initial]
  finished := by simp [initial]

theorem reachable_streaming (fitting : Fitting block) {data : Memory} (fresh : block.rbMeta = {})
    (reached : (machine block messages).Reachable (Bounded block) (initial block data) channel) :
    Streaming block messages channel := by
  refine reached.invariant (Streaming block messages) (streaming_initial data fresh) ?_
  intro before role after streaming small taken
  cases role with
  | producer => exact streaming_producer fitting small streaming taken
  | consumer => exact streaming_consumer fitting small streaming taken

/-- Over every interleaving of its two threads the channel delivers its messages with
their payloads, in order and none twice; when the consumer leaves, it has received a
first part of them, and the rest fits the ring. -/
theorem varlen_channel_delivers {header : ControlBlock} {capacity : UInt64}
    {alignment itemSize : UInt32} {data : Memory}
    (inited : initControlBlock header capacity .varlen alignment itemSize = some block)
    (longest : exactSlotSize block 31 ≤ block.dataCapacity.toNat)
    (reached : (machine block messages).Reachable (Bounded block) (initial block data) channel) :
    Delivers block messages channel := by
  obtain ⟨geometry, fresh, -⟩ := initControlBlock_accepted inited
  have streaming := reachable_streaming ⟨geometry.toShape, longest⟩ fresh reached
  refine ⟨streaming.expected, streaming.matched, ?_, streaming.producing, streaming.consuming, ?_, ?_⟩
  · refine streaming.accepted_prefix.trans ?_
    rw [← numbered_take streaming.published_le]
    exact List.take_prefix _ _
  · intro left
    obtain ⟨slots, -, whole, count⟩ := streaming.delivered_eq left
    have within : channel.drained.toNat ≤ messages.toNat := by
      have length := congrArg List.length whole
      simp only [numbered, List.length_map, List.length_range, List.length_append] at length
      omega
    rw [← numbered_take within, whole, ← count, List.take_left]
  · intro left
    obtain ⟨slots, inv, whole, count⟩ := streaming.delivered_eq left
    have held := leastSize_le inv.tiled
    have committed := inv.committed
    have bounded := inv.bounded
    rw [whole, ← count, List.drop_left]
    omega

/-- The ring of the example. -/
def channelBlock : ControlBlock := { sampleBlock with dataCapacity := 4096 }

/-- The consumer receives one message and finds the ring empty before the producer sends
another and sets its flag: it leaves without the second. -/
theorem varlen_channel_delivers_first : ∃ channel,
    initControlBlock {} 4096 .varlen 8 0 = some channelBlock ∧
    (machine channelBlock 2).Reachable (Bounded channelBlock) (initial channelBlock fun _ => 0)
      channel ∧
    channel.consumer = .left ∧ channel.drained = 1 ∧ Delivers channelBlock 2 channel := by
  obtain ⟨channel, run, passed⟩ := (machine channelBlock 2).run_of_replay (Bounded channelBlock)
    (initial channelBlock fun _ => 0)
    (List.replicate 12 .producer ++ List.replicate 17 .consumer ++ List.replicate 14 .producer ++
      [.consumer])
    (fun channel => decide (channel.consumer = .left) && decide (channel.drained = 1))
    (by decide +kernel)
  simp only [Bool.and_eq_true, decide_eq_true_eq] at passed
  refine ⟨channel, by decide, ⟨_, run⟩, passed.1, passed.2, ?_⟩
  exact varlen_channel_delivers (show initControlBlock {} 4096 .varlen 8 0 = some channelBlock by decide)
    (by decide) ⟨_, run⟩

end SpscRing.VarlenChannel
