import SpscRing.Varlen.Region

/-! Narrow alignments: a history of small messages that leaves a tail shorter
than a header, and the dummy header that then overruns the region. -/

namespace SpscRing.Varlen

open SpscRing.Foundation

variable {block : ControlBlock} {state after : State}

/-- A single-shot `write` that reserves without padding, run by the producer alone. -/
structure Written (block : ControlBlock) (state : State) (payloadSize : UInt32) (after : State) :
    Prop where
  idle : after.writerPc = .idle
  free : after.pending = false
  writePos : after.writePos = state.writePos + (neededFor block payloadSize).toUInt64
  commitPos : after.commitPos = after.writePos
  readPos : after.readPos = state.readPos
  readerPc : after.readerPc = state.readerPc
  header : loadHeader after.data (indexOf block state.writePos) =
    { slotSize := neededFor block payloadSize, payloadSize := payloadSize }

/-- The publishing half of `commit`, run by the producer alone. -/
theorem run_commit (block : ControlBlock) (state : State) (position : UInt64)
    (here : state.writerPc = .readSlotSize position) :
    (machine block).Run Machine.Always state [.writer, .writer, .writer]
      { state with
        commitPos := position + (loadHeader state.data (indexOf block position)).slotSize.toUInt64
        pending := false
        commitSeq := (NotifyWord.bumpNotifyWord state.commitSeq).1
        writerPc := .idle
        log := state.log.commit position } := by
  apply Machine.replay_run
  simp [Machine.replay, Machine.Always, machine, step, writerStep, here]

theorem run_write (payloadSize : UInt32) (idle : state.writerPc = .idle) (free : state.pending = false)
    (fits : (neededFor block payloadSize).toNat ≤ block.dataCapacity.toNat)
    (roomy : ¬ state.writePos - state.readPos + (neededFor block payloadSize).toUInt64 >
      block.dataCapacity)
    (contiguous : ¬ wrapPadding block state.writePos < (neededFor block payloadSize).toUInt64) :
    ∃ after, (machine block).Run Machine.Always state
      (.call (write payloadSize none) :: List.replicate 7 .writer) after ∧
        Written block state payloadSize after := by
  let call : ReserveCall := { payloadSize, commits := true }
  let entered : State := { state with writerPc := .loadRead call state.writePos }
  let held : State := { entered.reserved block call with writerPc := .readSlotSize state.writePos }
  have entry := run_entry state call idle free fits
  have matching : (entered.reserved block call).afterReserve call state.writePos = held := by
    simp [State.afterReserve, State.afterCopy, State.beginCommit, call, held, State.reserved,
      State.writeSlot, entered]
  have reserve := run_reserved entered call rfl roomy contiguous
  rw [matching] at reserve
  have commit := run_commit block held state.writePos rfl
  refine ⟨_, entry.append (reserve.append commit), ?_⟩
  have header : loadHeader held.data (indexOf block state.writePos) =
      { slotSize := neededFor block payloadSize, payloadSize := payloadSize } :=
    loadHeader_storeHeader _ _ _
  refine ⟨rfl, rfl, rfl, ?_, rfl, rfl, header⟩
  simp only [header]
  rfl

/-- A `read` moves the consumer past a published slot, padding or message alike. -/
theorem run_read {header : VarlenSlotHeader} (resting : state.readerPc = .idle)
    (unread : state.commitPos > state.readPos)
    (found : loadHeader state.data (indexOf block state.readPos) = header)
    (sized : header.slotSize ≠ 0)
    (whole : ¬ state.commitPos - state.readPos < header.slotSize.toUInt64) :
    ∃ count after, (machine block).Run Machine.Always state
        (.read .handler :: List.replicate count (.reader true)) after ∧
      after.readPos = state.readPos + header.slotSize.toUInt64 ∧ ConsumerFrame state after := by
  have nonzero : state.commitPos - state.readPos ≠ 0 := by
    rw [gt_iff_lt, UInt64.lt_iff_toNat_lt] at unread
    intro zero
    have same := congrArg UInt64.toNat zero
    rw [toNat_sub (by omega), UInt64.toNat_zero] at same
    omega
  let moved : UInt64 := state.readPos + header.slotSize.toUInt64
  by_cases padding : header.payloadSize = 0
  · refine ⟨7, { state with readPos := moved, readerPc := .skipBump .handler }, ?_, rfl,
      .of_consumer state _ _ _ _ _⟩
    apply Machine.replay_run
    simp [Machine.replay, List.replicate, Machine.Always, machine, step, readerStep, resting, unread,
      nonzero, found, sized, whole, padding, moved]
  · let offer : Offer := ⟨state.readPos,
      state.data.read (indexOf block state.readPos + 32) header.payloadSize.toNat, header.messageMeta⟩
    refine ⟨10, { state with
        readPos := moved
        result := some (.accepted offer)
        readerPc := .consumeBump
        log := state.log.finishRead (.accepted offer) }, ?_, rfl,
      .of_consumer state _ _ _ _ _⟩
    apply Machine.replay_run
    simp [Machine.replay, List.replicate, Machine.Always, machine, step, readerStep, resting, unread,
      nonzero, found, sized, whole, padding, moved, offer, ReadCall.accepts, State.finishRead]

/-- A resting producer, with the two fronts that decide its next reservation. -/
structure Parked (state : State) (front read : Nat) : Prop where
  idle : state.writerPc = .idle
  free : state.pending = false
  front : state.writePos.toNat = front
  read : state.readPos.toNat = read

/-- The dummy header that is about to be written reaches beyond the data region. -/
def Overruns (block : ControlBlock) (state : State) : Prop :=
  ∃ call head, state.writerPc = .writePad call head ∧
    block.dataCapacity.toNat < indexOf block head + 32

section Narrow

variable (shape : Shape block) {front read : Nat}
include shape

omit shape in
theorem exactSlotSize_of_dvd {payloadSize : UInt32} (positive : 0 < block.dataAlignment.toNat)
    (whole : block.dataAlignment.toNat ∣ 32 + payloadSize.toNat) :
    exactSlotSize block payloadSize = 32 + payloadSize.toNat := by
  obtain ⟨units, same⟩ := whole
  have rounded : (32 + payloadSize.toNat + block.dataAlignment.toNat - 1) / block.dataAlignment.toNat =
      units := by
    rw [same]
    apply Nat.div_eq_of_lt_le
    · rw [Nat.mul_comm]
      omega
    · rw [Nat.add_mul, Nat.mul_comm]
      omega
  rw [exactSlotSize, rounded, same, Nat.mul_comm]

/-- A short payload whose slot needs no rounding. -/
theorem toNat_neededFor_of_dvd {payloadSize : UInt32}
    (whole : block.dataAlignment.toNat ∣ 32 + payloadSize.toNat) (short : payloadSize.toNat < 32) :
    (neededFor block payloadSize).toNat = 32 + payloadSize.toNat := by
  have bounded := shape.alignment_le
  rw [toNat_neededFor_exact shape _ (by omega)]
  exact exactSlotSize_of_dvd shape.alignment_pos whole

/-- The checks of `try_reserve` on the first lap. -/
theorem first_lap {needed : UInt32} (parked : Parked state front read) (ordered : read ≤ front)
    (positive : 0 < needed.toNat) (inside : front + needed.toNat ≤ block.dataCapacity.toNat) :
    ¬ state.writePos - state.readPos + needed.toUInt64 > block.dataCapacity ∧
      ¬ wrapPadding block state.writePos < needed.toUInt64 := by
  have capacity := block.dataCapacity.toNat_lt
  have written := parked.front
  have consumed := parked.read
  constructor
  · rw [room_iff (by omega) (by omega)]
    omega
  · rw [wrapPadding_lt_iff shape, written, Nat.mod_eq_of_lt (by omega)]
    omega

theorem parked_write (payloadSize : UInt32) (parked : Parked state front read) (ordered : read ≤ front)
    (whole : block.dataAlignment.toNat ∣ 32 + payloadSize.toNat) (short : payloadSize.toNat < 32)
    (inside : front + (32 + payloadSize.toNat) ≤ block.dataCapacity.toNat) :
    ∃ after, (machine block).Run LimitedPayloads state
        (.call (write payloadSize none) :: List.replicate 7 .writer) after ∧
      Parked after (front + (32 + payloadSize.toNat)) read ∧ Written block state payloadSize after := by
  have capacity := block.dataCapacity.toNat_lt
  have size := toNat_neededFor_of_dvd shape whole short
  obtain ⟨roomy, contiguous⟩ := first_lap shape parked ordered
    (show 0 < (neededFor block payloadSize).toNat by omega) (by omega)
  obtain ⟨after, run, written⟩ :=
    run_write payloadSize parked.idle parked.free (by omega) roomy contiguous
  refine ⟨after, run.mono ?_, ⟨written.idle, written.free, ?_, ?_⟩, written⟩
  · intro action member _ _ _
    simp only [List.mem_cons, List.mem_replicate] at member
    rcases member with rfl | ⟨-, rfl⟩
    · show payloadSize.toNat ≤ payloadLimit
      unfold payloadLimit
      omega
    · trivial
  · rw [written.writePos, toNat_add, parked.front, UInt32.toNat_toUInt64, size]
    rw [parked.front, UInt32.toNat_toUInt64, size]
    omega
  · rw [written.readPos]
    exact parked.read

/-- Empty messages move the front on in steps of one header. -/
theorem parked_fill (parked : Parked state front read) (ordered : read ≤ front)
    (narrow : block.dataAlignment.toNat ∣ 32) (count : Nat)
    (inside : front + 32 * count ≤ block.dataCapacity.toNat) :
    ∃ after, (machine block).Reachable LimitedPayloads state after ∧
      Parked after (front + 32 * count) read := by
  induction count with
  | zero => exact ⟨state, .refl state, parked⟩
  | succ count ih =>
    obtain ⟨middle, reached, resting⟩ := ih (by omega)
    obtain ⟨after, run, next, -⟩ :=
      parked_write shape 0 resting (by omega) (by simpa using narrow) (by decide)
        (by simp only [UInt32.toNat_zero]; omega)
    refine ⟨after, reached.run run, ?_⟩
    simpa [Nat.mul_add, Nat.add_assoc] using next

/-- The first message and its `read` put the consumer ahead of nothing. -/
theorem parked_start (fresh : block.rbMeta = {}) (data : Memory) (payloadSize : UInt32)
    (whole : block.dataAlignment.toNat ∣ 32 + payloadSize.toNat) (short : payloadSize.toNat < 32)
    (inside : 32 + payloadSize.toNat ≤ block.dataCapacity.toNat) :
    ∃ after, (machine block).Reachable LimitedPayloads (initial block data) after ∧
      Parked after (32 + payloadSize.toNat) (32 + payloadSize.toNat) := by
  have size := toNat_neededFor_of_dvd shape whole short
  have parked : Parked (initial block data) 0 0 := by
    refine ⟨rfl, rfl, ?_, ?_⟩ <;> simp [initial, fresh]
  obtain ⟨middle, run, resting, written⟩ :=
    parked_write shape payloadSize parked (Nat.le_refl _) whole short (by omega)
  have committed : middle.commitPos.toNat = 32 + payloadSize.toNat := by
    rw [written.commitPos, resting.front]
    omega
  have front : middle.readPos = (initial block data).writePos := by
    rw [written.readPos]
    simp [initial, fresh]
  have slot : (neededFor block payloadSize).toUInt64.toNat = 32 + payloadSize.toNat := by
    rw [UInt32.toNat_toUInt64, size]
  have found : loadHeader middle.data (indexOf block middle.readPos) =
      { slotSize := neededFor block payloadSize, payloadSize := payloadSize } := by
    rw [front]
    exact written.header
  have unread : middle.commitPos > middle.readPos := by
    rw [gt_iff_lt, UInt64.lt_iff_toNat_lt, resting.read]
    omega
  have sized : neededFor block payloadSize ≠ 0 := by
    intro zero
    rw [zero, UInt32.toNat_zero] at size
    omega
  have covered : ¬ middle.commitPos - middle.readPos < (neededFor block payloadSize).toUInt64 := by
    rw [UInt64.lt_iff_toNat_lt, toNat_sub (by rw [resting.read]; omega), slot, resting.read]
    omega
  obtain ⟨count, after, reading, moved, frame⟩ :=
    run_read written.readerPc unread found sized covered
  have admitted : (machine block).Run LimitedPayloads middle
      (.read .handler :: List.replicate count (.reader true)) after := by
    refine reading.mono fun action member _ _ _ => ?_
    simp only [List.mem_cons, List.mem_replicate] at member
    rcases member with rfl | ⟨-, rfl⟩ <;> trivial
  refine ⟨after, ⟨_, run.append admitted⟩, ?_⟩
  refine ⟨frame.writerPc.trans resting.idle, frame.pending.trans resting.free, ?_, ?_⟩
  · rw [frame.writePos, resting.front]
    omega
  · rw [moved, toNat_add, slot, resting.read]
    · omega
    · have limit := block.dataCapacity.toNat_lt
      rw [slot, resting.read]
      omega

/-- A tail shorter than a header: the next empty message pads it, and the dummy
header reaches beyond the region. -/
theorem parked_overruns (parked : Parked state front read) (ordered : read ≤ front)
    (narrow : block.dataAlignment.toNat ∣ 32) (tail : front < block.dataCapacity.toNat)
    (short : block.dataCapacity.toNat < front + 32)
    (room : front + 32 ≤ read + block.dataCapacity.toNat) :
    ∃ after, (machine block).Reachable LimitedPayloads state after ∧ Overruns block after := by
  let call : ReserveCall := { payloadSize := 0 }
  have size : (neededFor block 0).toNat = 32 := toNat_neededFor_of_dvd shape (by simpa) (by decide)
  have capacity := block.dataCapacity.toNat_lt
  have written := parked.front
  have consumed := parked.read
  have roomy : ¬ state.writePos - state.readPos + (neededFor block 0).toUInt64 > block.dataCapacity := by
    rw [room_iff (by omega) (by omega)]
    omega
  have padded : wrapPadding block state.writePos < (neededFor block 0).toUInt64 := by
    rw [wrapPadding_lt_iff shape, written, Nat.mod_eq_of_lt tail]
    omega
  have entry := run_entry state call parked.idle parked.free (show (neededFor block 0).toNat ≤ _ by omega)
  have claim : (machine block).Run Machine.Always
      { state with writerPc := .loadRead call state.writePos } [.writer, .writer]
      { state with
        writePos := state.writePos + wrapPadding block state.writePos
        writerPc := .writePad call state.writePos } := by
    apply Machine.replay_run
    simp [Machine.replay, Machine.Always, machine, step, writerStep, call, roomy, padded]
  refine ⟨_, ⟨_, (entry.append claim).mono ?_⟩, call, state.writePos, rfl, ?_⟩
  · intro action member _ _ _
    simp only [List.cons_append, List.nil_append, List.mem_cons, List.not_mem_nil, or_false] at member
    rcases member with rfl | rfl | rfl | rfl
    · show (0 : UInt32).toNat ≤ payloadLimit
      decide
    all_goals trivial
  · rw [indexOf_eq, parked.front, Nat.mod_eq_of_lt tail]
    exact short

end Narrow

/-- On a ring with a narrow alignment and room for more than one header, small
messages lead to a tail that cannot hold the dummy header. -/
theorem narrow_overruns (geometry : Geometry block) (fresh : block.rbMeta = {}) (data : Memory)
    (narrow : block.dataAlignment.toNat < 32) (large : 32 < block.dataCapacity.toNat) :
    ∃ after, (machine block).Reachable LimitedPayloads (initial block data) after ∧
      Overruns block after := by
  have shape := geometry.toShape
  have divides := shape.alignment_dvd_header (Nat.le_of_lt narrow)
  have positive := shape.alignment_pos
  have whole := geometry.divides
  -- aim the front at the last aligned index: one odd slot first, then empty ones
  have target : block.dataAlignment.toNat ∣ block.dataCapacity.toNat - block.dataAlignment.toNat :=
    Nat.dvd_sub whole (Nat.dvd_refl _)
  have fits : 32 + block.dataAlignment.toNat ≤ block.dataCapacity.toNat := by
    obtain ⟨units, thirtyTwo⟩ := divides
    obtain ⟨count, same⟩ := whole
    rw [same, thirtyTwo] at large ⊢
    have more : units < count := Nat.lt_of_mul_lt_mul_left large
    calc block.dataAlignment.toNat * units + block.dataAlignment.toNat
        = block.dataAlignment.toNat * (units + 1) := by rw [Nat.mul_add, Nat.mul_one]
      _ ≤ block.dataAlignment.toNat * count := Nat.mul_le_mul_left _ more
  obtain ⟨rest, restEq⟩ : ∃ rest, rest = block.dataCapacity.toNat - block.dataAlignment.toNat := ⟨_, rfl⟩
  rw [← restEq] at target
  have odd : (UInt32.ofNat (rest % 32)).toNat = rest % 32 := by
    rw [UInt32.toNat_ofNat']
    omega
  have parts := Nat.div_add_mod rest 32
  obtain ⟨first, reached, parked⟩ := parked_start shape fresh data
    (UInt32.ofNat (rest % 32)) (by rw [odd]; exact Nat.dvd_add divides ((Nat.dvd_mod_iff divides).mpr target))
    (by omega) (by omega)
  obtain ⟨filled, further, resting⟩ :=
    parked_fill shape parked (Nat.le_refl _) divides (rest / 32 - 1) (by omega)
  obtain ⟨after, last, overrun⟩ :=
    parked_overruns shape resting (by omega) divides (by omega) (by omega) (by omega)
  obtain ⟨actions, run⟩ := further
  obtain ⟨lastActions, lastRun⟩ := last
  exact ⟨after, (reached.run run).run lastRun, overrun⟩

/-- Every write of the producer stays inside the data region, in every state of
every run. -/
def RegionKept (block : ControlBlock) (data : Memory) : Prop :=
  ∀ state, (machine block).Reachable LimitedPayloads (initial block data) state → InRegion block state

/-- No step of any run changes a byte outside the data region, whatever the memory holds. -/
def BytesKept (block : ControlBlock) : Prop :=
  ∀ data state action after, (machine block).Reachable LimitedPayloads (initial block data) state →
    (machine block).step state action = some after →
      ∀ address, block.dataCapacity.toNat ≤ address → after.data address = state.data address

theorem Overruns.not_inRegion (overruns : Overruns block state) : ¬ InRegion block state := by
  obtain ⟨call, head, here, beyond⟩ := overruns
  intro inside
  have header := inside.header call head (.inl here)
  omega

/-- Where no step changes a byte outside the region, a run changes none either. -/
theorem BytesKept.run {data : Memory} (kept : BytesKept block)
    (reached : (machine block).Reachable LimitedPayloads (initial block data) state) {address : Nat}
    (beyond : block.dataCapacity.toNat ≤ address) : state.data address = data address := by
  refine (reached.invariant (fun state =>
    (machine block).Reachable LimitedPayloads (initial block data) state ∧
      state.data address = data address) ⟨.refl _, rfl⟩ ?_).2
  rintro before action after ⟨reached, same⟩ limited taken
  exact ⟨reached.run (.next taken limited (.done _)),
    (kept data before action after reached taken address beyond).trans same⟩

/-- The last byte of a dummy header is zero, whatever was there. -/
theorem storeHeader_pad_last (data : Memory) (index : Nat) (slotSize : UInt32) :
    storeHeader data index { slotSize, payloadSize := 0 } (index + 31) = 0 := by
  rw [storeHeader, Memory.write_inside (by simp)]
  simp [VarlenSlotHeader.encode, bytesU32, leBytes]

theorem Overruns.not_bytesKept
    (reached : (machine block).Reachable LimitedPayloads (initial block fun _ => 1) state)
    (overruns : Overruns block state) : ¬ BytesKept block := by
  obtain ⟨call, head, here, beyond⟩ := overruns
  intro kept
  have taken : (machine block).step state .writer = some { state with
      data := storeHeader state.data (indexOf block head)
        { slotSize := (wrapPadding block head).toUInt32, payloadSize := 0 }
      writerPc := .publishPad call head } := by
    simp only [machine, step, writerStep, here]
  have outside : block.dataCapacity.toNat ≤ indexOf block head + 31 := by omega
  have same := kept _ _ _ _ reached taken _ outside
  dsimp only at same
  rw [storeHeader_pad_last, kept.run reached outside] at same
  exact absurd same (by decide)

theorem bytesKept_of_granular {unit : Nat} (granular : Granular block unit (Fits block))
    (shape : Shape block) (header : ∀ call, Fits block call → 32 ≤ unit) (fresh : block.rbMeta = {}) :
    BytesKept block := by
  intro data state action after reached taken address beyond
  obtain ⟨kept, inside⟩ := reachable_granular granular shape fresh reached
  exact outside_step (kept.inRegion granular shape header) inside taken beyond

/-- On precisely the rings whose alignment is at least a header's length, or whose
capacity is at most that, every header and every payload area lies inside the data region,
and no step changes a byte outside it. -/
theorem region_kept_iff {header : ControlBlock} {capacity : UInt64} {alignment itemSize : UInt32}
    {data : Memory}
    (accepted : initControlBlock header capacity .varlen alignment itemSize = some block) :
    (RegionKept block data ↔ 32 ≤ alignment.toNat ∨ capacity.toNat ≤ 32) ∧
    (BytesKept block ↔ 32 ≤ alignment.toNat ∨ capacity.toNat ≤ 32) := by
  obtain ⟨geometry, fresh, rfl, rfl, -⟩ := initControlBlock_accepted accepted
  have shape := geometry.toShape
  have narrow (data : Memory)
      (exposed : ¬ (32 ≤ block.dataAlignment.toNat ∨ block.dataCapacity.toNat ≤ 32)) :
      ∃ after, (machine block).Reachable LimitedPayloads (initial block data) after ∧
        Overruns block after := by
    rw [not_or, Nat.not_le, Nat.not_le] at exposed
    exact narrow_overruns geometry fresh data exposed.1 exposed.2
  refine ⟨⟨fun kept => ?_, ?_⟩, fun kept => ?_, ?_⟩
  · by_contra exposed
    obtain ⟨after, reached, overruns⟩ := narrow data exposed
    exact overruns.not_inRegion (kept after reached)
  · rintro (wide | tiny) state reached
    · have granular := granular_alignment geometry (Fits block)
      exact (reachable_granular granular shape fresh reached).1.inRegion granular shape fun _ _ => wide
    · have granular := granular_of_tiny shape tiny
      exact (reachable_granular granular shape fresh reached).1.inRegion granular shape
        fun _ _ => Nat.le_refl _
  · by_contra exposed
    obtain ⟨after, reached, overruns⟩ := narrow (fun _ => 1) exposed
    exact overruns.not_bytesKept reached kept
  · rintro (wide | tiny)
    · exact bytesKept_of_granular (granular_alignment geometry _) shape (fun _ _ => wide) fresh
    · exact bytesKept_of_granular (granular_of_tiny shape tiny) shape (fun _ _ => Nat.le_refl _) fresh

/-- The sample ring with an alignment of 32 bytes. -/
def wideBlock : ControlBlock := { sampleBlock with dataAlignment := 32 }

theorem region_kept_iff_wide : RegionKept wideBlock (fun _ => 0) ∧ BytesKept wideBlock := by
  have accepted : initControlBlock {} 64 .varlen 32 0 = some wideBlock := by decide
  have kept : (RegionKept wideBlock (fun _ => 0) ↔ _) ∧ _ := region_kept_iff accepted
  exact ⟨kept.1.mpr (.inl (by decide)), kept.2.mpr (.inl (by decide))⟩

/-- The position a padding slot is about to be written to. -/
def WriterPc.padHead : WriterPc → Option UInt64
  | .writePad _ head => some head
  | _ => none

theorem WriterPc.padHead_eq_some {pc : WriterPc} {head : UInt64} :
    pc.padHead = some head ↔ ∃ call, pc = .writePad call head := by
  cases pc <;> simp [padHead]

/-- A 56-byte slot, written and read, leaves a tail of 8 bytes: the next empty
message puts its dummy header at index 56 of 64. -/
theorem dummy_header_overruns : ¬ RegionKept sampleBlock (fun _ => 1) ∧ ¬ BytesKept sampleBlock := by
  obtain ⟨state, run, padding⟩ := (machine sampleBlock).run_of_replay LimitedPayloads
    (initial sampleBlock fun _ => 1)
    (.call (write 24 none) :: List.replicate 7 .writer ++
      .read .handler :: List.replicate 11 (.reader true) ++
      .call (tryReserve 0) :: List.replicate 3 .writer)
    (fun state => state.writerPc.padHead == some 56) (by decide +kernel)
  obtain ⟨call, here⟩ := WriterPc.padHead_eq_some.mp (beq_iff_eq.mp padding)
  have overruns : Overruns sampleBlock state := ⟨call, 56, here, by decide⟩
  exact ⟨fun kept => overruns.not_inRegion (kept state ⟨_, run⟩), overruns.not_bytesKept ⟨_, run⟩⟩

end SpscRing.Varlen
