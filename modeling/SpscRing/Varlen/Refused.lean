import SpscRing.Varlen.Full
import SpscRing.Varlen.Scan

/-! A refused reservation: it may publish the tail as padding, which no reader
sees, and from then on every call that asks for as much changes nothing. -/

namespace SpscRing.Varlen

open SpscRing.Foundation

section Definitions

variable (block : ControlBlock)

instance (data : Memory) (stop position : Nat) : Decidable (Whole block data stop position) :=
  decidable_of_iff (0 < (headerAt block data position).slotSize.toNat ∧
      position + (headerAt block data position).slotSize.toNat ≤ stop)
    ⟨fun ⟨sized, within⟩ => ⟨sized, within⟩, fun ⟨sized, within⟩ => ⟨sized, within⟩⟩

/-- The messages in the slots from a position on, in order; `fuel` bounds their number. -/
def unreadFrom (data : Memory) (stop : Nat) : (fuel position : Nat) → List Message
  | 0, _ => []
  | fuel + 1, position =>
    if Whole block data stop position then
      let header := headerAt block data position
      let rest := unreadFrom data stop fuel (position + header.slotSize.toNat)
      if header.payloadSize = 0 then rest
      else
        ⟨data.read (position % block.dataCapacity.toNat + 32) header.payloadSize.toNat,
          header.messageMeta⟩ :: rest
    else []

/-- The non-empty messages between the fronts of consumer and producer. -/
def State.unread (state : State) : List Message :=
  unreadFrom block state.data state.commitPos.toNat (state.commitPos.toNat - state.readPos.toNat)
    state.readPos.toNat

/-- What a refused reservation leaves as it was, and how far the fronts may have moved. -/
structure Harmless (before after : State) : Prop where
  unread : after.unread block = before.unread block
  readPos : after.readPos = before.readPos
  pending : after.pending = before.pending
  lastPosition : after.lastPosition = before.lastPosition
  settled : before.commitPos = before.writePos ∧ after.commitPos = after.writePos
  grew : after.writePos.toNat = before.writePos.toNat ∨
    after.writePos.toNat = before.writePos.toNat + tailBytes block before

/-- Consecutive calls of `try_reserve` with no consumer step in between. -/
inductive TriesAll : State → List (UInt32 × MessageMeta) → List ReserveResult → State → Prop where
  | done (state : State) : TriesAll state [] [] state
  | next {state between after : State} {payloadSize : UInt32} {messageMeta : MessageMeta}
      {result : ReserveResult} {calls : List (UInt32 × MessageMeta)} {results : List ReserveResult}
      (first : TryReserves block state payloadSize messageMeta result between)
      (rest : TriesAll between calls results after) :
      TriesAll state ((payloadSize, messageMeta) :: calls) (result :: results) after

/-- Calls that all return, all refused, and leave fronts, notify words and data as they are. -/
structure AllRefused (state : State) (calls : List (UInt32 × MessageMeta)) : Prop where
  returns : ∃ results after, TriesAll block state calls results after
  refused : ∀ results after, TriesAll block state calls results after →
    (∀ result ∈ results, result.status = .full ∨ result.status = .messageTooLarge) ∧
      after.toMeta = state.toMeta ∧ after.data = state.data

end Definitions

variable {block : ControlBlock} {state after : State} {slots more : List Slot}
variable {payloadSize : UInt32} {messageMeta : MessageMeta} {result : ReserveResult}

/-- The bytes between the fronts spell out the undelivered messages. -/
theorem unreadFrom_eq {data : Memory} {log : Log} {start stop fuel : Nat}
    (tiled : Tiled Slot.size (Live block data log) start slots stop) (enough : stop - start ≤ fuel) :
    unreadFrom block data stop fuel start = undelivered slots := by
  induction slots generalizing start fuel with
  | nil =>
    have drained : start = stop := tiled
    have none : ¬ Whole block data stop start := by
      intro whole
      have sized := whole.sized
      have within := whole.within
      omega
    cases fuel with
    | zero => rfl
    | succ fuel => simp [unreadFrom, none, undelivered, deliverable]
  | cons slot rest ih =>
    obtain ⟨⟨placed, -⟩, tiled⟩ := tiled
    have within := tiled.le
    have sized := placed.positive
    have header : headerAt block data start = slot.header := placed.header
    have whole : Whole block data stop start := ⟨by rw [header]; exact sized, by rw [header]; exact within⟩
    cases fuel with
    | zero => omega
    | succ fuel =>
      have later := ih tiled (show stop - (start + slot.size) ≤ fuel by omega)
      simp only [unreadFrom, if_pos whole, header]
      rw [show slot.header.slotSize.toNat = slot.size from rfl, later]
      by_cases empty : slot.header.payloadSize = 0
      · have nothing := (payload_eq_nil placed).mpr empty
        simp [empty, undelivered, deliverable, Slot.message, nothing]
      · have something := mt (payload_eq_nil placed).mp empty
        simp [empty, undelivered, deliverable, Slot.message, something, placed.payload]

theorem Inv.unread_eq (inv : Inv block state slots) : state.unread block = undelivered slots :=
  unreadFrom_eq inv.tiled (Nat.le_refl _)

/-- Slots published without a new message in the log carry none. -/
theorem Inv.silent (inv : Inv block state slots) (grown : Inv block after (slots ++ more))
    (log : after.log = state.log) (readerPc : after.readerPc = state.readerPc) :
    undelivered more = [] := by
  have before := inv.delivery.messages
  have messages := grown.delivery.messages
  rw [log, readerPc, before] at messages
  have same := List.append_cancel_left messages
  cases busy : state.readerPc.consuming with
  | false =>
    simp only [busy, Bool.false_eq_true, if_false, undelivered_append] at same
    simpa using same
  | true =>
    obtain ⟨first, rest, rfl⟩ := inv.reader.front_of_consuming busy
    simp only [busy, if_true, List.cons_append, List.tail_cons, undelivered_append] at same
    simpa using same

/-- Too little is free for a payload, whatever the tail. -/
structure Jammed (block : ControlBlock) (state : State) (payloadSize : UInt32) : Prop where
  idle : state.writerPc = .idle
  free : state.pending = false
  ordered : state.readPos.toNat ≤ state.writePos.toNat
  bounded : state.writePos.toNat ≤ state.readPos.toNat + block.dataCapacity.toNat
  small : block.dataCapacity.toNat < 2 ^ 63
  crowded : state.readPos.toNat + block.dataCapacity.toNat <
    state.writePos.toNat + exactSlotSize block payloadSize

section Jammed

variable {wanted : UInt32}

theorem Jammed.finishReserve (jammed : Jammed block state wanted) (result : ReserveResult) :
    Jammed block (state.finishReserve result) wanted :=
  { jammed with idle := rfl }

variable (shape : Shape block) (jammed : Jammed block state wanted)
include shape jammed

/-- A call that asks for at least as much returns at once and changes nothing
but its own result. -/
theorem Jammed.refuses (limit : payloadSize.toNat ≤ payloadLimit)
    (larger : exactSlotSize block wanted ≤ exactSlotSize block payloadSize) (messageMeta : MessageMeta) :
    ∃ result, (result.status = .full ∨ result.status = .messageTooLarge) ∧
      TryReserves block state payloadSize messageMeta result (state.finishReserve result) := by
  have exact : (neededFor block payloadSize).toNat = exactSlotSize block payloadSize :=
    toNat_neededFor_exact shape _ (unwrapped_of_limit shape limit)
  by_cases fits : (neededFor block payloadSize).toNat ≤ block.dataCapacity.toNat
  · let call : ReserveCall := { payloadSize, messageMeta }
    have ordered := jammed.ordered
    have bounded := jammed.bounded
    have small := jammed.small
    have less := jammed.crowded
    have crowded : Crowded block state payloadSize := by
      rw [Crowded, ← Decidable.not_not (p := _ > _), room_iff ordered (by omega)]
      omega
    have entry := run_entry state call jammed.idle jammed.free fits
    refine ⟨{ status := .full }, .inl rfl, 2, ?_, rfl, rfl⟩
    exact entry.append (run_full { state with writerPc := .loadRead call state.writePos } call rfl crowded)
  · exact ⟨_, .inr rfl, tryReserves_tooLarge jammed.idle jammed.free (by omega) messageMeta⟩

theorem Jammed.tries {calls : List (UInt32 × MessageMeta)}
    (asks : ∀ call ∈ calls, call.1.toNat ≤ payloadLimit ∧
      exactSlotSize block wanted ≤ exactSlotSize block call.1) :
    AllRefused block state calls := by
  induction calls generalizing state with
  | nil =>
    refine ⟨⟨[], state, .done state⟩, ?_⟩
    rintro results after (_ | _)
    exact ⟨by simp, rfl, rfl⟩
  | cons call calls ih =>
    obtain ⟨limit, larger⟩ := asks call (by simp)
    obtain ⟨result, refused, tried⟩ := jammed.refuses shape limit larger call.2
    have rest := ih (jammed.finishReserve result) fun later member => asks later (by simp [member])
    obtain ⟨results, after, further⟩ := rest.returns
    refine ⟨⟨result :: results, after, .next tried further⟩, ?_⟩
    rintro _ last (_ | ⟨first, others⟩)
    obtain ⟨rfl, rfl⟩ := tried.unique first
    obtain ⟨all, fronts, bytes⟩ := rest.refused _ last others
    refine ⟨?_, fronts, bytes⟩
    intro other member
    rcases List.mem_cons.mp member with rfl | member
    · exact refused
    · exact all other member

end Jammed

section Refused

variable (shape : Shape block) (inv : Inv block state slots) (small : NoWrap block state)
variable (idle : state.writerPc = .idle) (free : state.pending = false)
variable (limit : payloadSize.toNat ≤ payloadLimit)
variable (refused : TryReserves block state payloadSize messageMeta result after)
variable (full : result.status = .full)
include idle free refused full

/-- A call that reports `full` has passed its size check. -/
theorem TryReserves.fits :
    (neededFor block payloadSize).toNat ≤ block.dataCapacity.toNat := by
  by_contra large
  have tooLarge := tryReserves_tooLarge idle free (Nat.not_le.mp large) messageMeta
  obtain ⟨-, rfl⟩ := refused.unique tooLarge
  cases full

include shape small

/-- The two ways to be refused: at once, or after the tail was padded. -/
theorem TryReserves.refused_cases : Crowded block after payloadSize ∧
    (after = state.finishReserve { status := .full } ∨
      after = (state.padded block).finishReserve { status := .full }) := by
  have fits := refused.fits idle free full
  obtain ⟨expected, alone⟩ := tryReserves_alone shape small.inRange idle free fits messageMeta
  obtain ⟨rfl, rfl⟩ := refused.unique alone
  have status := (reserveAlone_status refused.choose_spec.2.2).2
  by_cases crowded : Crowded block state payloadSize
  · have same : state.reserveAlone block { payloadSize, messageMeta } =
        state.finishReserve { status := .full } := by
      simp [State.reserveAlone, crowded]
    rw [same]
    exact ⟨crowded, .inl rfl⟩
  · obtain ⟨short, again⟩ := (status.mp full).resolve_left crowded
    have same : state.reserveAlone block { payloadSize, messageMeta } =
        (state.padded block).finishReserve { status := .full } := by
      simp [State.reserveAlone, crowded, short, again]
    rw [same]
    exact ⟨again, .inr rfl⟩

include inv limit

theorem TryReserves.harmless : Harmless block state after := by
  have sound : SizeSound block payloadSize := .inl (unwrapped_of_limit shape limit)
  obtain ⟨more, grown, frame⟩ := refused.inv shape inv small sound idle
  have settled := inv.settled idle free
  obtain ⟨-, rfl | rfl⟩ := refused.refused_cases shape small idle free full
  · refine ⟨rfl, rfl, rfl, rfl, ⟨settled.equal.symm, settled.equal.symm⟩, .inl rfl⟩
  · refine ⟨?_, rfl, rfl, rfl, ⟨settled.equal.symm, rfl⟩, .inr ?_⟩
    · rw [grown.unread_eq, inv.unread_eq, undelivered_append, inv.silent grown rfl rfl, List.append_nil]
    · rw [tailBytes, ← toNat_wrapPadding shape]
      exact toNat_padded shape small.inRange

theorem TryReserves.jammed : Jammed block after payloadSize := by
  have sized := unwrapped_of_limit shape limit
  have exact : (neededFor block payloadSize).toNat = exactSlotSize block payloadSize :=
    toNat_neededFor_exact shape _ sized
  have short := (neededFor block payloadSize).toNat_lt
  obtain ⟨more, grown, frame⟩ := refused.inv shape inv small (.inl sized) idle
  obtain ⟨crowded, same⟩ := refused.refused_cases shape small idle free full
  have ordered := Nat.le_trans grown.front_le grown.committed
  have bounded := grown.bounded
  have small : block.dataCapacity.toNat < 2 ^ 63 := by
    unfold NoWrap at small
    omega
  refine ⟨refused.choose_spec.2.1, ?_, ordered, bounded, small, ?_⟩
  · rcases same with rfl | rfl <;> exact free
  · rw [Crowded, ← Decidable.not_not (p := _ > _), room_iff ordered (by omega)] at crowded
    omega

end Refused

/-- A refused reservation is harmless and settles at once: no message, no
consumer front and no guard changes, the producer's fronts grow by the tail at
most, and whatever further calls ask for as much are refused too and change no
front, no notify word and no byte. -/
theorem refused_reserve_settles {header : ControlBlock} {capacity : UInt64}
    {alignment itemSize : UInt32} {data : Memory}
    (accepted : initControlBlock header capacity .varlen alignment itemSize = some block)
    (reached : (machine block).Reachable (SingleSession block) (initial block data) state)
    (unwrapped : NoWrap block state) (idle : state.writerPc = .idle) (free : state.pending = false)
    (limit : payloadSize.toNat ≤ payloadLimit)
    (refused : TryReserves block state payloadSize messageMeta result after)
    (full : result.status = .full) :
    Harmless block state after ∧ ∀ calls : List (UInt32 × MessageMeta),
      (∀ call ∈ calls, call.1.toNat ≤ payloadLimit ∧
        exactSlotSize block payloadSize ≤ exactSlotSize block call.1) →
          AllRefused block after calls := by
  obtain ⟨⟨shape, -⟩, slots, inv⟩ := single_inv accepted reached
  refine ⟨refused.harmless shape inv unwrapped idle free limit full, fun calls asks => ?_⟩
  exact (refused.jammed shape inv unwrapped idle free limit full).tries shape asks

/-- Both fronts at index 40 of 64: 32 bytes are refused after the 24 bytes of
the tail were padded, and so is everything from then on that needs as much. -/
theorem refused_reserve_settles_padded : ∃ state after,
    (machine sampleBlock).Reachable (SingleSession sampleBlock) (initial sampleBlock fun _ => 0) state ∧
      state.writePos = 40 ∧ TryReserves sampleBlock state 32 {} { status := .full } after ∧
      after.writePos = 64 ∧ Harmless sampleBlock state after ∧
      AllRefused sampleBlock after [(32, {}), (40, {}), (32, {})] := by
  obtain ⟨state, run, passed⟩ := (machine sampleBlock).run_of_replay (SingleSession sampleBlock)
    (initial sampleBlock fun _ => 0)
    (.call (write 8 none) :: List.replicate 7 .writer ++
      .read .handler :: List.replicate 11 (.reader true))
    (fun state => state.writerPc.isIdle && !state.pending && state.writePos == 40 &&
      ((machine sampleBlock).replay Machine.Always state
        (.call (tryReserve 32) :: List.replicate 7 .writer)).any fun after =>
          after.writerPc.isIdle && after.returned == some { status := .full } &&
            after.writePos == 64) (by decide +kernel)
  simp only [Bool.and_eq_true, Bool.not_eq_true', beq_iff_eq, WriterPc.isIdle_iff] at passed
  obtain ⟨⟨⟨idle, free⟩, written⟩, alone⟩ := passed
  obtain ⟨after, again, returned⟩ := (machine sampleBlock).run_of_replay Machine.Always state _ _ alone
  simp only [Bool.and_eq_true, beq_iff_eq, WriterPc.isIdle_iff] at returned
  have refused : TryReserves sampleBlock state 32 {} { status := .full } after :=
    ⟨7, again, returned.1⟩
  obtain ⟨harmless, settles⟩ := refused_reserve_settles sampleBlock_accepted ⟨_, run⟩
    (by rw [NoWrap, written]; decide) idle free (by decide) refused rfl
  exact ⟨state, after, ⟨_, run⟩, written, refused, returned.2, harmless,
    settles _ (by simp only [List.forall_mem_cons]; decide)⟩

end SpscRing.Varlen
